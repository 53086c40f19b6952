import Chip8.Machine.CallStack

/-!
# The call stack as a list

What a call stack means is `CallStack.live`, the addresses in use from the oldest to the latest.
`CallStack.grow` and `CallStack.shrink` are what a push and a pop make of a stack, `CallStack.top` is
the address that a pop gives back; they are total, and are `push` and `pop` on every stack of at most
`stackFrames` frames (`push_eq`, `pop_eq`).

On the list a push appends (`live_grow`) and a pop takes the last address off (`live_shrink`,
`live_eq_append_top`).
-/
namespace Chip8.CallStack

/-- The latest address in use. -/
def top (s : CallStack) : UInt16 := s.frames.toList.getD (s.depth - 1) 0

/-- The stack with one more frame in use. -/
def grow (s : CallStack) (address : UInt16) : CallStack :=
  ⟨s.frames.setIfInBounds s.depth address, s.depth + 1⟩

/-- The stack with one frame less in use. -/
def shrink (s : CallStack) : CallStack := ⟨s.frames, s.depth - 1⟩

theorem push_eq (s : CallStack) (address : UInt16) (h : s.depth ≤ stackFrames) :
    s.push address =
      if s.depth = stackFrames then .error (.fault .stackOverflow) else .ok (s.grow address) := by
  unfold push grow
  split
  · rfl
  · rename_i hne
    have hlt : s.depth < stackFrames := Nat.lt_of_le_of_ne h hne
    rw [dif_pos hlt]
    congr 2
    exact Vector.ext fun i hi => by
      rw [Vector.getElem_set, Vector.getElem_setIfInBounds]

theorem pop_eq (s : CallStack) (h : s.depth ≤ stackFrames) :
    s.pop = if s.depth = 0 then .error (.fault .stackUnderflow) else .ok (s.top, s.shrink) := by
  unfold pop shrink top
  split
  · rfl
  · have hlt : s.depth - 1 < stackFrames := by omega
    rw [dif_pos hlt]
    simp [List.getD_eq_getElem?_getD, hlt]

/-! ## The list -/

theorem length_live {s : CallStack} (h : s.depth ≤ stackFrames) : s.live.length = s.depth := by
  simp [live, h]

theorem live_grow {s : CallStack} (h : s.depth < stackFrames) (address : UInt16) :
    (s.grow address).live = s.live ++ [address] := by
  have hlen : s.depth < s.frames.toList.length := by simpa using h
  simp only [live, grow, Vector.toList_setIfInBounds]
  rw [List.take_add_one, List.take_set_of_le (Nat.le_refl _), List.getElem?_set_self hlen]
  rfl

theorem live_eq_append_top {s : CallStack} (h : s.depth ≤ stackFrames) (h0 : s.depth ≠ 0) :
    s.live = s.shrink.live ++ [s.top] := by
  obtain ⟨k, hk⟩ := Nat.exists_eq_succ_of_ne_zero h0
  have hlen : k < s.frames.toList.length := by simp; omega
  simp only [live, shrink, top, hk, Nat.succ_eq_add_one, Nat.add_sub_cancel]
  rw [List.take_add_one, List.getD_eq_getElem?_getD, List.getElem?_eq_getElem hlen]
  rfl

theorem live_shrink {s : CallStack} (h : s.depth ≤ stackFrames) (h0 : s.depth ≠ 0) :
    s.shrink.live = s.live.dropLast := by
  rw [live_eq_append_top h h0, List.dropLast_concat]

theorem top_mem_live {s : CallStack} (h : s.depth ≤ stackFrames) (h0 : s.depth ≠ 0) :
    s.top ∈ s.live := by
  rw [live_eq_append_top h h0]
  exact List.mem_append_right _ (List.mem_singleton_self _)

end Chip8.CallStack
