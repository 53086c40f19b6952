import Chip8.Text.Hex
import Chip8.Text.Numeral
import Mathlib.Data.List.Forall2
import Mathlib.Data.Nat.Digits.Defs

/-!
# Digits and the numbers they stand for

Numbers are written by `Nat.toDigits` and read by `digitsValue?`.

* `digitsValue?_eq_some_iff`: which texts are read, and as which number: digits one by one (`IsDigit`), and their
  value as `Nat.ofDigits` has it.
* `digitsValue?_toDigits`, `digitsValue?_hexDigits`: what is written is read as the number it was written for, with
  any zeros in front.
* `hexDigits_injective`: numbers written in the same width are told apart.
* `natural?_eq_some_iff`: the numerals that are read as natural numbers, sign and digits (`IsNumeral`).
-/
namespace Chip8.Text

/-- A digit of a base up to sixteen, in either case, and its value. -/
def IsDigit (base : Nat) (c : Char) (d : Nat) : Prop :=
  d < base ∧ (c = Nat.digitChar d ∨ c = (Nat.digitChar d).toUpper)

variable {base n value : Nat} {cs : List Char} {c : Char} {d : Nat}

/-! ## Reading -/

theorem digitValue?_eq_some_iff (hb : base ≤ 16) : digitValue? base c = some d ↔ IsDigit base c d := by
  rw [digitValue?, Option.filter_eq_some_iff, decide_eq_true_eq, and_comm]
  refine and_congr_right fun hd => ⟨fun h => ?_, ?_⟩
  · have hc {k : Nat} (hk : c.toNat = k) : c = Char.ofNat k := by rw [← hk, Char.ofNat_toNat]
    have hle {a b : Char} (hab : a ≤ b) : a.toNat ≤ b.toNat := hab
    have hdecimal : ∀ d < 10, Char.ofNat (48 + d) = Nat.digitChar d := by decide
    have hlower : ∀ d < 16, 10 ≤ d → Char.ofNat (87 + d) = Nat.digitChar d := by decide
    have hupper : ∀ d < 16, 10 ≤ d → Char.ofNat (55 + d) = (Nat.digitChar d).toUpper := by decide
    split_ifs at h with hrange hrange hrange
    all_goals
      have hfrom := hle hrange.1
      have hto := hle hrange.2
      simp only [Option.some.injEq, Char.reduceToNat] at h hfrom hto
    · exact .inl ((hc (by omega)).trans (hdecimal d (by omega)))
    · exact .inl ((hc (by omega)).trans (hlower d (by omega) (by omega)))
    · exact .inr ((hc (by omega)).trans (hupper d (by omega) (by omega)))
  · have hlower : ∀ d < 16, digitValue? 16 (Nat.digitChar d) = some d := by decide
    have hupper : ∀ d < 16, digitValue? 16 (Nat.digitChar d).toUpper = some d := by decide
    rintro (rfl | rfl)
    · exact (Option.filter_eq_some_iff.mp (hlower d (by omega))).1
    · exact (Option.filter_eq_some_iff.mp (hupper d (by omega))).1

/-- A text of digits is read as the number that the digits have in their base. -/
theorem digitsValue?_eq_some_iff (hb : base ≤ 16) :
    digitsValue? base value cs = some n ↔
      ∃ ds, List.Forall₂ (IsDigit base) cs ds ∧ n = value * base ^ cs.length + Nat.ofDigits base ds.reverse := by
  -- one more digit in front counts as much as all that are behind it allow
  have hvalue (value d : Nat) {cs : List Char} {ds : List Nat} (h : List.Forall₂ (IsDigit base) cs ds) :
      (value * base + d) * base ^ cs.length + Nat.ofDigits base ds.reverse =
        value * base ^ (cs.length + 1) + Nat.ofDigits base (d :: ds).reverse := by
    rw [List.reverse_cons, Nat.ofDigits_append, Nat.ofDigits_singleton, List.length_reverse, h.length_eq,
      Nat.pow_succ]
    ring
  induction cs generalizing value with
  | nil => simp [digitsValue?, eq_comm]
  | cons c rest ih =>
    rw [digitsValue?]
    constructor
    · intro h
      split at h
      · rename_i d hd
        obtain ⟨ds, hds, hn⟩ := ih.mp h
        exact ⟨d :: ds, .cons ((digitValue?_eq_some_iff hb).mp hd) hds, hn.trans (hvalue value d hds)⟩
      · cases h
    · rintro ⟨_, hds, hn⟩
      cases hds with
      | @cons _ d _ ds hd hds =>
        rw [(digitValue?_eq_some_iff hb).mpr hd]
        exact ih.mpr ⟨ds, hds, hn.trans (hvalue value d hds).symm⟩

theorem digitsValue?_append (cs cs' : List Char) :
    digitsValue? base value (cs ++ cs') = (digitsValue? base value cs).bind (digitsValue? base · cs') := by
  induction cs generalizing value with
  | nil => rfl
  | cons c rest ih =>
    rw [List.cons_append, digitsValue?, digitsValue?]
    cases digitValue? base c with
    | none => rfl
    | some d => exact ih

/-! ## Writing -/

theorem digitValue?_digitChar (hb : base ≤ 16) (hd : d < base) : digitValue? base (Nat.digitChar d) = some d :=
  (digitValue?_eq_some_iff hb).mpr ⟨hd, .inl rfl⟩

theorem digitsValue?_toDigits (hb : 1 < base) (hb' : base ≤ 16) (n : Nat) :
    digitsValue? base 0 (Nat.toDigits base n) = some n := by
  induction n using Nat.strongRecOn with
  | ind n ih =>
    rw [Nat.toDigits_eq_if hb]
    split
    · rw [digitsValue?, digitValue?_digitChar hb' ‹_›]
      simp [digitsValue?]
    · have hlast : digitValue? base (Nat.digitChar (n % base)) = some (n % base) :=
        digitValue?_digitChar hb' (Nat.mod_lt n (by omega))
      rw [digitsValue?_append, ih _ (Nat.div_lt_self (by omega) hb), Option.bind_some, digitsValue?, hlast]
      exact congrArg some (Nat.div_add_mod' n base)

theorem digitsValue?_hexDigits (width n : Nat) : digitsValue? 16 0 (hexDigits width n) = some n := by
  have hzeros (k : Nat) : digitsValue? 16 0 (List.replicate k '0') = some 0 := by
    induction k with
    | zero => rfl
    | succ k ih => exact ih
  rw [hexDigits, List.leftpad, digitsValue?_append, hzeros]
  exact digitsValue?_toDigits (by decide) (by decide) n

theorem hexDigits_injective {width m : Nat} (h : hexDigits width m = hexDigits width n) : m = n := by
  have hread := digitsValue?_hexDigits width m
  rw [h, digitsValue?_hexDigits] at hread
  exact (Option.some.inj hread).symm

/-- What is written is digits, and in lower case. -/
theorem exists_of_mem_toDigits (hb : 1 < base) (h : c ∈ Nat.toDigits base n) : ∃ d < base, c = Nat.digitChar d := by
  induction n using Nat.strongRecOn with
  | ind n ih =>
    rw [Nat.toDigits_eq_if hb] at h
    split at h
    · exact ⟨n, ‹_›, List.mem_singleton.mp h⟩
    · rcases List.mem_append.mp h with h | h
      · exact ih _ (Nat.div_lt_self (by omega) hb) h
      · exact ⟨n % base, Nat.mod_lt n (by omega), List.mem_singleton.mp h⟩

theorem exists_of_mem_hexDigits {width : Nat} (h : c ∈ hexDigits width n) : ∃ d < 16, c = Nat.digitChar d := by
  rw [hexDigits, List.leftpad, List.mem_append] at h
  rcases h with h | h
  · exact ⟨0, by decide, List.eq_of_mem_replicate h⟩
  · exact exists_of_mem_toDigits (by decide) h

theorem length_hexDigits (width n : Nat) : (hexDigits width n).length = max width (Nat.toDigits 16 n).length :=
  List.length_leftpad

theorem length_hexDigits_of_lt {width : Nat} (hw : 0 < width) (h : n < 16 ^ width) :
    (hexDigits width n).length = width := by
  rw [length_hexDigits, Nat.max_eq_left ((Nat.length_toDigits_le_iff (by decide) hw).mpr h)]

/-! ## Numerals -/

theorem IsDigit.toUpper (hb : base ≤ 16) (h : IsDigit base c d) : IsDigit base c.toUpper d := by
  have htwice : ∀ d < 16, (Nat.digitChar d).toUpper.toUpper = (Nat.digitChar d).toUpper := by decide
  obtain ⟨hd, rfl | rfl⟩ := h
  · exact ⟨hd, .inr rfl⟩
  · exact ⟨hd, .inr (htwice d (by omega))⟩

/-- A natural numeral and its value: an optional plus sign and at least one digit. -/
def IsNumeral (base : Nat) (cs : List Char) (n : Nat) : Prop :=
  ∃ sign digits ds, cs = sign ++ digits ∧ (sign = [] ∨ sign = ['+']) ∧ digits ≠ [] ∧
    List.Forall₂ (IsDigit base) digits ds ∧ n = Nat.ofDigits base ds.reverse

/-- A numeral has a sign and digits and nothing else. -/
theorem IsNumeral.eq_or_isDigit (h : IsNumeral base cs n) (hc : c ∈ cs) : c = '+' ∨ ∃ d, IsDigit base c d := by
  obtain ⟨sign, digits, ds, rfl, hsign, -, hdigits, -⟩ := h
  rcases List.mem_append.mp hc with hc | hc
  · rcases hsign with rfl | rfl
    · cases hc
    · exact .inl (List.mem_singleton.mp hc)
  · obtain ⟨k, hk, rfl⟩ := List.mem_iff_getElem.mp hc
    exact .inr ⟨_, hdigits.get hk (hdigits.length_eq ▸ hk)⟩

theorem natural?_eq_some_iff (hb : base ≤ 16) {bound : Nat} :
    natural? base bound cs = some n ↔ IsNumeral base cs n ∧ n < bound := by
  have hread : natural? base bound cs = some n ↔
      (dropPlus cs ≠ [] ∧ digitsValue? base 0 (dropPlus cs) = some n) ∧ n < bound := by
    unfold natural?
    cases dropPlus cs with
    | nil => simp
    | cons c rest => simp [Option.filter_eq_some_iff]
  have hvalue {digits : List Char} : digitsValue? base 0 digits = some n ↔
      ∃ ds, List.Forall₂ (IsDigit base) digits ds ∧ n = Nat.ofDigits base ds.reverse := by
    rw [digitsValue?_eq_some_iff hb]
    simp only [Nat.zero_mul, Nat.zero_add]
  rw [hread]
  refine and_congr_left fun _ => ⟨?_, ?_⟩
  · rintro ⟨hne, hdigits⟩
    obtain ⟨ds, hds, hn⟩ := hvalue.mp hdigits
    have hsign : ∃ sign, cs = sign ++ dropPlus cs ∧ (sign = [] ∨ sign = ['+']) := by
      unfold dropPlus
      split
      · exact ⟨['+'], rfl, .inr rfl⟩
      · exact ⟨[], rfl, .inl rfl⟩
    obtain ⟨sign, hcs, hsign⟩ := hsign
    exact ⟨sign, dropPlus cs, ds, hcs, hsign, hne, hds, hn⟩
  · rintro ⟨sign, digits, ds, rfl, hsign, hne, hds, hn⟩
    -- a text of digits does not begin with a sign
    have hdrop : dropPlus (sign ++ digits) = digits := by
      rcases hsign with rfl | rfl
      · rw [List.nil_append]
        unfold dropPlus
        split
        · cases hds with
          | cons hd _ => cases (digitValue?_eq_some_iff hb).mpr hd
        · rfl
      · rfl
    rw [hdrop]
    exact ⟨hne, hvalue.mpr ⟨ds, hds, hn⟩⟩

end Chip8.Text
