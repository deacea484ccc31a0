-- SUMMARY: Numerals in a base, and that the number read from a text is the one that the text denotes.
import DecompilerDesk.Address
import Mathlib.Data.List.Induction

/-!
# Numerals

A numeral is one or more digits. Behind a numeral for `n`, a digit for `d` makes one for `base * n + d`.
A text denotes a number if it is a numeral for it, with a plus sign in front or without.
-/

namespace DecompilerDesk

namespace Address

/-- The character is the digit of a number in a base, a letter in either case. -/
def IsDigit (base : Nat) (c : Char) (d : Nat) : Prop :=
  d < base ∧ (c = d.digitChar ∨ c = d.digitChar.toUpper)

/-- The digits stand for the number in a base. -/
inductive Numeral (base : Nat) : List Char → Nat → Prop where
  | one {c : Char} {d : Nat} : IsDigit base c d → Numeral base [c] d
  | more {digits : List Char} {n : Nat} {c : Char} {d : Nat} :
      Numeral base digits n → IsDigit base c d → Numeral base (digits ++ [c]) (base * n + d)

/-- The text is a numeral for the number, behind a plus sign perhaps. -/
inductive Denotes (base : Nat) : List Char → Nat → Prop where
  | plain {digits : List Char} {n : Nat} : Numeral base digits n → Denotes base digits n
  | signed {digits : List Char} {n : Nat} : Numeral base digits n → Denotes base ('+' :: digits) n

variable {base : Nat} {text digits : List Char} {c : Char} {n d : Nat}

/-! ## Digits -/

theorem digit?_of_isDigit (hbase : base ≤ 16) (h : IsDigit base c d) : digit? base c = some d := by
  obtain ⟨hd, hc⟩ := h
  have hvalues : ∀ d < 16,
      digit? 16 d.digitChar = some d ∧ digit? 16 d.digitChar.toUpper = some d := by decide
  obtain ⟨hlower, hupper⟩ := hvalues d (by omega)
  simp only [digit?, Option.filter_eq_some_iff] at hlower hupper ⊢
  rcases hc with rfl | rfl
  · exact ⟨hlower.1, decide_eq_true hd⟩
  · exact ⟨hupper.1, decide_eq_true hd⟩

theorem isDigit_of_digit? (hbase : base ≤ 16) (h : digit? base c = some d) : IsDigit base c d := by
  obtain ⟨hvalue, hd⟩ := Option.filter_eq_some_iff.mp h
  have hd : d < base := of_decide_eq_true hd
  have hdecimal : ∀ d < 10, d.digitChar.toNat = d + 48 := by decide
  have hlower : ∀ d < 16, 10 ≤ d → d.digitChar.toNat = d + 87 := by decide
  have hupper : ∀ d < 16, 10 ≤ d → d.digitChar.toUpper.toNat = d + 55 := by decide
  refine ⟨hd, ?_⟩
  split at hvalue
  next hrange =>
    have hfrom : 48 ≤ c.toNat := hrange.1
    have hto : c.toNat ≤ 57 := hrange.2
    have hvalue : c.toNat - 48 = d := Option.some.inj hvalue
    left
    apply Char.toNat_inj.mp
    rw [hdecimal d (by omega)]
    omega
  next =>
  split at hvalue
  next hrange =>
    have hfrom : 97 ≤ c.toNat := hrange.1
    have hvalue : c.toNat - 97 + 10 = d := Option.some.inj hvalue
    left
    apply Char.toNat_inj.mp
    rw [hlower d (by omega) (by omega)]
    omega
  next =>
  split at hvalue
  next hrange =>
    have hfrom : 65 ≤ c.toNat := hrange.1
    have hvalue : c.toNat - 65 + 10 = d := Option.some.inj hvalue
    right
    apply Char.toNat_inj.mp
    rw [hupper d (by omega) (by omega)]
    omega
  next => cases hvalue

/-- The characters with a value are those that stand for it. -/
theorem digit?_eq_some_iff (hbase : base ≤ 16) : digit? base c = some d ↔ IsDigit base c d :=
  ⟨isDigit_of_digit? hbase, digit?_of_isDigit hbase⟩

/-- A digit for a number is one in every larger base. -/
theorem IsDigit.mono {larger : Nat} (h : IsDigit base c d) (hle : base ≤ larger) :
    IsDigit larger c d := ⟨Nat.lt_of_lt_of_le h.1 hle, h.2⟩

theorem not_isDigit_plus (hbase : base ≤ 16) : ¬ IsDigit base '+' d := by
  intro h
  have hvalue := (digit?_eq_some_iff (Nat.le_refl 16)).mpr (h.mono hbase)
  cases hvalue

/-! ## Numerals -/

theorem Numeral.ne_nil (h : Numeral base digits n) : digits ≠ [] := by
  cases h with
  | one => exact List.cons_ne_nil _ _
  | more => exact List.append_ne_nil_of_right_ne_nil _ (List.cons_ne_nil _ _)

/-- Every character of a numeral is a digit. -/
theorem Numeral.isDigit (h : Numeral base digits n) : ∀ c ∈ digits, ∃ d, IsDigit base c d := by
  induction h with
  | one hdigit =>
    intro c hc
    rw [List.mem_singleton.mp hc]
    exact ⟨_, hdigit⟩
  | more _ hdigit ih =>
    intro c hc
    rcases List.mem_append.mp hc with hbefore | hlast
    · exact ih c hbefore
    · rw [List.mem_singleton.mp hlast]
      exact ⟨_, hdigit⟩

/-- In a larger base the same digits stand for no smaller number. -/
theorem Numeral.mono {larger : Nat} (h : Numeral base digits n) (hle : base ≤ larger) :
    ∃ m, n ≤ m ∧ Numeral larger digits m := by
  induction h with
  | one hdigit => exact ⟨_, Nat.le_refl _, .one (hdigit.mono hle)⟩
  | more _ hdigit ih =>
    obtain ⟨m, hm, hnumeral⟩ := ih
    have hproduct := Nat.mul_le_mul hle hm
    exact ⟨_, Nat.add_le_add_right hproduct _, .more hnumeral (hdigit.mono hle)⟩

theorem magnitude?_concat (base : Nat) (digits : List Char) (c : Char) :
    magnitude? base (digits ++ [c]) =
      (magnitude? base digits).bind fun n => (digit? base c).map (base * n + ·) := by
  rw [magnitude?, List.foldlM_append]
  simp only [List.foldlM_cons, List.foldlM_nil, bind_pure]
  rfl

/-- The digits of which a number is made are a numeral for it. -/
theorem magnitude?_eq_some_iff (hbase : base ≤ 16) (hsome : digits ≠ []) :
    magnitude? base digits = some n ↔ Numeral base digits n := by
  constructor
  · intro h
    induction digits using List.reverseRecOn generalizing n with
    | nil => exact absurd rfl hsome
    | append_singleton digits c ih =>
      rw [magnitude?_concat, Option.bind_eq_some_iff] at h
      obtain ⟨m, hm, hlast⟩ := h
      obtain ⟨d, hd, rfl⟩ := Option.map_eq_some_iff.mp hlast
      have hdigit := (digit?_eq_some_iff hbase).mp hd
      by_cases hempty : digits = []
      · subst hempty
        obtain rfl := Option.some.inj hm
        rw [Nat.mul_zero, Nat.zero_add]
        exact .one hdigit
      · exact .more (ih hempty hm) hdigit
  · intro h
    induction h with
    | @one c d hdigit =>
      have hconcat := magnitude?_concat base [] c
      rw [List.nil_append, (digit?_eq_some_iff hbase).mpr hdigit] at hconcat
      rw [hconcat]
      show some (base * 0 + d) = some d
      rw [Nat.mul_zero, Nat.zero_add]
    | more hnumeral hdigit ih =>
      rw [magnitude?_concat, ih hnumeral.ne_nil, (digit?_eq_some_iff hbase).mpr hdigit]
      rfl

/-! ## Texts -/

theorem number?_eq_some_iff (hbase : base ≤ 16) : number? base text = some n ↔ Denotes base text n := by
  have hdigits (digits : List Char) :
      (if digits.isEmpty then none else magnitude? base digits) = some n ↔ Numeral base digits n := by
    cases digits with
    | nil => exact ⟨nofun, fun h => absurd rfl h.ne_nil⟩
    | cons c rest => exact magnitude?_eq_some_iff hbase (List.cons_ne_nil c rest)
  constructor
  · intro h
    unfold number? at h
    split at h
    next rest => exact .signed ((hdigits rest).mp h)
    next => exact .plain ((hdigits text).mp h)
  · intro h
    cases h with
    | signed hnumeral => exact (hdigits _).mpr hnumeral
    | plain hnumeral =>
      unfold number?
      split
      next rest =>
        obtain ⟨d, hdigit⟩ := hnumeral.isDigit '+' List.mem_cons_self
        exact absurd hdigit (not_isDigit_plus hbase)
      next => exact (hdigits text).mpr hnumeral

/-- A text denotes one number at most. -/
theorem Denotes.unique {m : Nat} (hbase : base ≤ 16) (h : Denotes base text n) (h' : Denotes base text m) :
    n = m :=
  Option.some.inj (((number?_eq_some_iff hbase).mpr h).symm.trans ((number?_eq_some_iff hbase).mpr h'))

theorem Denotes.mono {larger : Nat} (h : Denotes base text n) (hle : base ≤ larger) :
    ∃ m, n ≤ m ∧ Denotes larger text m := by
  cases h with
  | plain hnumeral =>
    obtain ⟨m, hm, hlarger⟩ := hnumeral.mono hle
    exact ⟨m, hm, .plain hlarger⟩
  | signed hnumeral =>
    obtain ⟨m, hm, hlarger⟩ := hnumeral.mono hle
    exact ⟨m, hm, .signed hlarger⟩

/-- Behind the sign, every character of a text that denotes a number is a digit. -/
theorem Denotes.isDigit (h : Denotes base text n) : ∀ c ∈ text, c = '+' ∨ ∃ d, IsDigit base c d := by
  intro c hc
  cases h with
  | plain hnumeral => exact .inr (hnumeral.isDigit c hc)
  | signed hnumeral =>
    rcases List.mem_cons.mp hc with rfl | hdigit
    · exact .inl rfl
    · exact .inr (hnumeral.isDigit c hdigit)

/-- The word read from a text is the number that the text denotes. -/
theorem word?_eq_some_iff {address : Address} (hbase : base ≤ 16) :
    word? base text = some address ↔ Denotes base text address.toNat := by
  rw [← number?_eq_some_iff hbase, word?, Option.bind_eq_some_iff]
  constructor
  · rintro ⟨n, hn, hword⟩
    split at hword
    next hlt =>
      obtain rfl := Option.some.inj hword
      rwa [UInt64.toNat_ofNat_of_lt' hlt]
    next => cases hword
  · intro h
    refine ⟨_, h, ?_⟩
    rw [if_pos address.toNat_lt_size, UInt64.ofNat_toNat]

theorem word?_eq_none_iff (hbase : base ≤ 16) :
    word? base text = none ↔ ∀ n < UInt64.size, ¬ Denotes base text n := by
  rw [Option.eq_none_iff_forall_ne_some]
  constructor
  · intro h n hlt hdenotes
    refine h (.ofNat n) ((word?_eq_some_iff hbase).mpr ?_)
    rwa [UInt64.toNat_ofNat_of_lt' hlt]
  · intro h address hword
    exact h _ address.toNat_lt_size ((word?_eq_some_iff hbase).mp hword)

end Address

end DecompilerDesk
