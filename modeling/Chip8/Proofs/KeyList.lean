import Chip8.Proofs.Digits
import Chip8.Proofs.Headless
import Mathlib.Data.List.TakeWhile

/-!
# Lists of keys

A list of keys is cut at its commas, and each piece is a key or the whole list is refused.

* `Text.exists_trim`, `Text.trim_append`: what is taken away at the ends of a text, and that it is all.
* `key?_eq_some_iff`, `keys?_eq_some_iff`: the pieces that are keys (`WritesKey`), and the lists of them.
* `keys?_intercalate`: keys written in any way, with commas between them, are read in their order.
* `key_list_understood`: the lists that are understood and those that are refused, and what becomes of the keys.
-/
namespace Chip8

namespace Text

variable {cs before after : List Char}

/-- Nothing but blank characters. -/
def AllBlank (cs : List Char) : Prop := ∀ c ∈ cs, isBlank c = true

-- Character by character of the list: to go through all characters there are would take too long.
instance (cs : List Char) : Decidable (AllBlank cs) := List.decidableBAll _ cs

/-- What is taken away at the ends of a text is blank. -/
theorem exists_trim (cs : List Char) :
    ∃ before after, cs = before ++ trim cs ++ after ∧ AllBlank before ∧ AllBlank after := by
  let rest := cs.dropWhile isBlank
  have hblank (l : List Char) : AllBlank (l.takeWhile isBlank) := fun c hc => List.mem_takeWhile_imp hc
  have hrest : trim cs ++ (rest.reverse.takeWhile isBlank).reverse = rest := by
    rw [trim, ← List.reverse_append, List.takeWhile_append_dropWhile, List.reverse_reverse]
  refine ⟨cs.takeWhile isBlank, (rest.reverse.takeWhile isBlank).reverse, ?_, hblank cs, fun c hc =>
    hblank rest.reverse c (List.mem_reverse.mp hc)⟩
  rw [List.append_assoc, hrest, List.takeWhile_append_dropWhile]

/-- Blank characters around a text that has none are taken away, and nothing else. -/
theorem trim_append (hbefore : AllBlank before) (hafter : AllBlank after) (hcs : ∀ c ∈ cs, isBlank c = false) :
    trim (before ++ cs ++ after) = cs := by
  have hkeep {l : List Char} (hl : ∀ c ∈ l, isBlank c = false) (hne : l ≠ []) (l' : List Char) :
      (l ++ l').dropWhile isBlank = l ++ l' := by
    cases l with
    | nil => exact absurd rfl hne
    | cons c rest => exact List.dropWhile_cons_of_neg (by simp [hl c List.mem_cons_self])
  have hback : AllBlank after.reverse := fun c hc => hafter c (List.mem_reverse.mp hc)
  rw [trim, List.append_assoc, List.dropWhile_append_of_pos hbefore]
  by_cases hne : cs = []
  · subst hne
    rw [List.nil_append, List.dropWhile_eq_nil_iff.mpr hafter]
    rfl
  · have hlast : cs.reverse.dropWhile isBlank = cs.reverse := by
      simpa using hkeep (fun c hc => hcs c (List.mem_reverse.mp hc)) (by simpa using hne) []
    rw [hkeep hcs hne, List.reverse_append, List.dropWhile_append_of_pos hback, hlast, List.reverse_reverse]

end Text

namespace Console

/-! ## Pieces -/

/-- A way to write a key: a numeral in base sixteen with blank characters around it. -/
def WritesKey (piece : List Char) (key : Nat) : Prop :=
  ∃ before numeral after, piece = before ++ numeral ++ after ∧ Text.AllBlank before ∧ Text.AllBlank after ∧
    Text.IsNumeral 16 numeral key ∧ key < 16

/-- Signs and digits are neither blank nor commas. -/
theorem plain_of_isNumeral {numeral : List Char} {n : Nat} {c : Char} (h : Text.IsNumeral 16 numeral n)
    (hc : c ∈ numeral) : Text.isBlank c = false ∧ c ≠ ',' := by
  have hdigit : ∀ d < 16, (Text.isBlank (Nat.digitChar d) = false ∧ Nat.digitChar d ≠ ',') ∧
    (Text.isBlank (Nat.digitChar d).toUpper = false ∧ (Nat.digitChar d).toUpper ≠ ',') := by decide
  rcases h.eq_or_isDigit hc with rfl | ⟨d, hd, rfl | rfl⟩
  · decide
  · exact (hdigit d hd).1
  · exact (hdigit d hd).2

theorem key?_eq_some_iff {piece : List Char} {key : Nat} : key? piece = some key ↔ WritesKey piece key := by
  have hcount : keyCount = 16 := rfl
  rw [key?, Text.natural?_eq_some_iff (by decide), hcount]
  constructor
  · rintro ⟨hnumeral, hkey⟩
    obtain ⟨before, after, hpiece, hbefore, hafter⟩ := Text.exists_trim piece
    exact ⟨before, _, after, hpiece, hbefore, hafter, hnumeral, hkey⟩
  · rintro ⟨before, numeral, after, rfl, hbefore, hafter, hnumeral, hkey⟩
    rw [Text.trim_append hbefore hafter fun c hc => (plain_of_isNumeral hnumeral hc).1]
    exact ⟨hnumeral, hkey⟩

theorem WritesKey.comma_not_mem {piece : List Char} {key : Nat} (h : WritesKey piece key) : ',' ∉ piece := by
  have hblank : Text.isBlank ',' = false := by decide
  obtain ⟨before, numeral, after, rfl, hbefore, hafter, hnumeral, -⟩ := h
  simp only [List.mem_append, not_or]
  refine ⟨⟨fun hc => ?_, fun hc => (plain_of_isNumeral hnumeral hc).2 rfl⟩, fun hc => ?_⟩
  · cases hblank.symm.trans (hbefore _ hc)
  · cases hblank.symm.trans (hafter _ hc)

/-! ## Lists -/

theorem keys?_eq_some_iff {list : String} {keys : List Nat} :
    keys? list = some keys ↔ List.Forall₂ WritesKey (list.toList.splitOn ',') keys := by
  rw [keys?, mapM_eq_some_iff]
  simp only [key?_eq_some_iff]

theorem exists_keys?_iff {list : String} :
    (∃ keys, keys? list = some keys) ↔ ∀ piece ∈ list.toList.splitOn ',', ∃ key, WritesKey piece key := by
  simp only [keys?_eq_some_iff]
  induction list.toList.splitOn ',' with
  | nil => simp
  | cons piece rest ih =>
    rw [List.forall_mem_cons, ← ih]
    constructor
    · rintro ⟨_, _ | ⟨hkey, hkeys⟩⟩
      exact ⟨⟨_, hkey⟩, _, hkeys⟩
    · rintro ⟨⟨key, hkey⟩, keys, hkeys⟩
      exact ⟨key :: keys, .cons hkey hkeys⟩

theorem keys?_eq_none_iff {list : String} :
    keys? list = none ↔ ∃ piece ∈ list.toList.splitOn ',', ∀ key, ¬ WritesKey piece key := by
  have hnone : keys? list = none ↔ ¬ ∃ keys, keys? list = some keys := by
    rw [Option.eq_none_iff_forall_ne_some, not_exists]
  rw [hnone, exists_keys?_iff]
  simp only [not_forall, not_exists, exists_prop]

/-- Keys written in any way with commas between them are read in their order. -/
theorem keys?_intercalate {pieces : List (List Char)} {keys : List Nat} (h : List.Forall₂ WritesKey pieces keys)
    (hne : pieces ≠ []) : keys? (",".intercalate (pieces.map String.ofList)) = some keys := by
  have hlist : (",".intercalate (pieces.map String.ofList)).toList = [','].intercalate pieces := by
    rw [String.toList_intercalate]
    simp
  have hcomma : ∀ piece ∈ pieces, ',' ∉ piece := by
    intro piece hpiece
    obtain ⟨k, hk, rfl⟩ := List.mem_iff_getElem.mp hpiece
    exact (h.get hk (h.length_eq ▸ hk)).comma_not_mem
  rw [keys?_eq_some_iff, hlist, List.splitOn_intercalate ',' hcomma hne]
  exact h

/-! ## What a command line makes of it -/

/-- One of the ways to write a key. -/
structure KeySpelling where
  key : Fin 16
  before : List Char
  /-- Whether there is a plus sign. -/
  signed : Bool
  /-- There are zeros in front up to this many digits. -/
  width : Nat
  upper : Bool
  after : List Char
  blank_before : Text.AllBlank before
  blank_after : Text.AllBlank after

namespace KeySpelling

def digits (s : KeySpelling) : List Char :=
  let digits := Text.hexDigits s.width s.key.val
  if s.upper then digits.map Char.toUpper else digits

def text (s : KeySpelling) : List Char :=
  s.before ++ ((if s.signed then ['+'] else []) ++ s.digits) ++ s.after

theorem writesKey_text (s : KeySpelling) : WritesKey s.text s.key.val := by
  obtain ⟨ds, hlower, hkey⟩ :=
    (Text.digitsValue?_eq_some_iff (by decide)).mp (Text.digitsValue?_hexDigits s.width s.key.val)
  rw [Nat.zero_mul, Nat.zero_add] at hkey
  have hdigits : List.Forall₂ (Text.IsDigit 16) s.digits ds := by
    unfold digits
    dsimp only
    split
    · exact List.forall₂_map_left_iff.mpr (hlower.imp fun c d h => h.toUpper (by decide))
    · exact hlower
  have hne : s.digits ≠ [] := by
    have hlength : s.digits.length = (Text.hexDigits s.width s.key.val).length :=
      hdigits.length_eq.trans hlower.length_eq.symm
    have hpos : 0 < (Nat.toDigits 16 s.key.val).length := Nat.length_toDigits_pos
    rw [Text.length_hexDigits] at hlength
    exact List.ne_nil_of_length_pos (by omega)
  have hsign : (if s.signed then ['+'] else []) = [] ∨ (if s.signed then ['+'] else []) = ['+'] := by
    cases s.signed
    · exact .inl rfl
    · exact .inr rfl
  exact ⟨s.before, _, s.after, rfl, s.blank_before, s.blank_after,
    ⟨_, s.digits, ds, rfl, hsign, hne, hdigits, hkey⟩, s.key.isLt⟩

end KeySpelling

theorem heldKeys_ok_iff {a : Arguments} {list : String} (h : a.value? .keys = some list) {keys : List Nat} :
    Options.heldKeys a = .ok keys ↔ keys? list = some keys := by
  unfold Options.heldKeys
  rw [h]
  dsimp only
  cases keys? list <;> simp

theorem heldKeys_error_iff {a : Arguments} {list : String} (h : a.value? .keys = some list) {e : OptionError} :
    Options.heldKeys a = .error e ↔ keys? list = none ∧ e = .invalidKeys list := by
  unfold Options.heldKeys
  rw [h]
  dsimp only
  cases keys? list <;> simp [eq_comm]

/-- A list of keys is understood exactly if each of its pieces writes a key; it stands for these keys in their order,
each of which every machine takes, and a session with them starts. Any other list is refused as a whole. Keys written
in any way with commas between them are read in their order. -/
theorem key_list_understood (a : Arguments) (list : String) (h : a.value? .keys = some list) :
    let pieces := list.toList.splitOn ','
    ((∃ keys, Options.heldKeys a = .ok keys) ↔ ∀ piece ∈ pieces, ∃ key, WritesKey piece key) ∧
      (∀ keys, Options.heldKeys a = .ok keys ↔ List.Forall₂ WritesKey pieces keys) ∧
      (∀ e, Options.heldKeys a = .error e ↔
        (∃ piece ∈ pieces, ∀ key, ¬ WritesKey piece key) ∧ e = .invalidKeys list) ∧
      (∀ keys, Options.heldKeys a = .ok keys →
        (∀ key ∈ keys, ∀ m : Machine, (m.setKey key true).result = .ok ()) ∧
          ∀ (s : Session) (image : List UInt8), s.options.keys = keys → image.length ≤ 3584 →
            ∃ start, Session.boot image s = .ok () start) ∧
      ∀ spellings : List KeySpelling, spellings ≠ [] →
        list = ",".intercalate (spellings.map fun s => String.ofList s.text) →
          Options.heldKeys a = .ok (spellings.map fun s => s.key.val) := by
  intro pieces
  simp only [heldKeys_ok_iff h, heldKeys_error_iff h]
  refine ⟨exists_keys?_iff, fun keys => keys?_eq_some_iff, fun e => and_congr_left fun _ => ?_,
    fun keys hkeys => ⟨?_, ?_⟩, ?_⟩
  · exact keys?_eq_none_iff
  · intro key hkey m
    have hlt : key < keyCount := keys?_lt hkeys key hkey
    simp [Machine.setKey, Keypad.set, hlt]
  · intro s image hs himage
    refine ⟨_, Session.boot_eq s himage (hs ▸ keys?_lt hkeys)⟩
  · rintro spellings hne rfl
    have hwrites : List.Forall₂ WritesKey (spellings.map KeySpelling.text) (spellings.map (·.key.val)) := by
      rw [List.forall₂_map_left_iff, List.forall₂_map_right_iff, List.forall₂_same]
      exact fun s _ => s.writesKey_text
    have hread := keys?_intercalate hwrites (by simpa using hne)
    rwa [List.map_map] at hread

/-- Four keys, padded, signed, in either case and one of them twice; and a list with a piece that is empty. -/
theorem key_list_understood_padded :
    let a : Arguments := { values := [(.keys, " +00a,F\t,5,F")] }
    let b : Arguments := { values := [(.keys, "1,,2")] }
    a.value? .keys = some " +00a,F\t,5,F" ∧ Options.heldKeys a = .ok [0xA, 0xF, 0x5, 0xF] ∧
      b.value? .keys = some "1,,2" ∧ Options.heldKeys b = .error (.invalidKeys "1,,2") := by
  intro a b
  have ha : a.value? .keys = some " +00a,F\t,5,F" := rfl
  have hb : b.value? .keys = some "1,,2" := rfl
  have hempty : ∀ key, ¬ WritesKey [] key := fun key h => by cases key?_eq_some_iff.mpr h
  let f : KeySpelling := ⟨0xF, [], false, 0, true, [], by decide, by decide⟩
  let spellings : List KeySpelling := [⟨0xA, [' '], true, 3, false, [], by decide, by decide⟩,
    { f with after := ['\t'], blank_after := by decide }, { f with key := 0x5 }, f]
  obtain ⟨-, -, -, -, hread⟩ := key_list_understood a _ ha
  obtain ⟨-, -, hrefused, -⟩ := key_list_understood b _ hb
  have hlist : " +00a,F\t,5,F" = ",".intercalate (spellings.map fun s => String.ofList s.text) := by decide +kernel
  exact ⟨ha, hread spellings (by decide) hlist, hb,
    (hrefused (.invalidKeys "1,,2")).mpr ⟨⟨[], by decide +kernel, hempty⟩, rfl⟩⟩

end Console
end Chip8
