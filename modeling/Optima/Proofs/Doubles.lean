import Optima.Proofs.Linear.Tokens

namespace Optima

namespace Scalar

open Float.Model (UnpackedFloat Format)
open Float.Model.UnpackedFloat (Sign unpack pack unpackExponent unpackExponent_packComponents)

/-- A number less itself is zero, unless it is infinite or no number. -/
theorem isFinite_eq_isFinite_unpack (x : Float) : isFinite x = x.toModel.unpack.isFinite := by
  have hsub : isFinite x = Float.Model.UnpackedFloat.beq
      (unpack .binary64 (pack .binary64 (.sub .binary64 x.toModel.unpack x.toModel.unpack)))
      (0 : Float).toModel.unpack := rfl
  rw [hsub]
  cases x.toModel.unpack with
  | infinity s => cases s <;> decide +kernel
  | notANumber => decide +kernel
  | zero s => cases s <;> decide +kernel
  | finite s m e hm =>
    have hzero : UnpackedFloat.sub .binary64 (.finite s m e hm) (.finite s m e hm) =
        .zero .positive := by
      simp only [UnpackedFloat.sub, sub_self]
      rfl
    rw [hzero]
    change _ = true
    decide +kernel

section Bits

variable {b : BitVec (Format.numBits .binary64)} {s : Sign} {m : ℕ} {e : ℤ} {hm : 0 < m}

theorem isFinite_unpack_iff :
    (unpack .binary64 b).isFinite = true ↔ unpackExponent b ≠ -1#11 := by
  unfold unpack
  dsimp only
  split_ifs with h _ _ _
  · exact iff_of_false Bool.false_ne_true (not_not_intro h)
  · exact iff_of_false Bool.false_ne_true (not_not_intro h)
  · exact iff_of_true rfl h
  · exact iff_of_true rfl h
  · exact iff_of_true rfl h

theorem exponent_lt (h : unpack .binary64 b = .finite s m e hm) : (e + 1075).toNat < 2047 := by
  have hne : unpackExponent b ≠ -1#11 := isFinite_unpack_iff.mp (h ▸ rfl)
  have hlt : (unpackExponent b : BitVec 11).toNat < 2047 := by
    have hlt : (unpackExponent b : BitVec 11).toNat < 2048 := BitVec.isLt _
    have hne : (unpackExponent b : BitVec 11).toNat ≠ 2047 := fun heq =>
      hne (BitVec.eq_of_toNat_eq heq)
    omega
  have hbias : (Format.binary64.exponentBias : ℤ) +
      Format.binary64.mantissaBitsWithoutImplicit = 1075 := rfl
  unfold unpack at h
  dsimp only at h
  rw [hbias] at h
  split_ifs at h with _ _ hzero
  · have he := (UnpackedFloat.finite.inj h).2.2
    have hzero : (unpackExponent b : BitVec 11).toNat = 0 := congrArg BitVec.toNat hzero
    omega
  · have he := (UnpackedFloat.finite.inj h).2.2
    omega

theorem isFinite_unpack_pack (he : (e + 1075).toNat < 2047) :
    (unpack .binary64 (pack .binary64 (.finite s m e hm))).isFinite = true := by
  have hbias : e + Format.binary64.exponentBias +
      Format.binary64.mantissaBitsWithoutImplicit = e + 1075 := add_assoc e _ _
  rw [isFinite_unpack_iff, pack]
  dsimp only
  rw [hbias]
  split_ifs with hlarge hnormal
  · exact absurd hlarge (show ¬2048 ≤ (e + 1075).toNat + 1 by omega)
  · rw [unpackExponent_packComponents]
    intro heq
    have heq : (e + 1075).toNat % 2048 = 2047 := congrArg BitVec.toNat heq
    omega
  · rw [unpackExponent_packComponents]
    decide

end Bits

theorem isFinite_neg {x : Float} (h : isFinite x = true) : isFinite (-x) = true := by
  rw [isFinite_eq_isFinite_unpack] at h ⊢
  change (unpack .binary64 (pack .binary64 x.toModel.unpack.neg)).isFinite = true
  cases hx : x.toModel.unpack with
  | infinity s =>
    rw [hx] at h
    exact absurd h Bool.false_ne_true
  | notANumber =>
    rw [hx] at h
    exact absurd h Bool.false_ne_true
  | zero s => cases s <;> rfl
  | finite s m e hm => exact isFinite_unpack_pack (exponent_lt hx)

end Scalar

namespace Decimal

open Linear (isNumeric isNumeric_of_isDigit)

def IsUnsigned (cs : List Char) : Prop := cs ≠ [] ∧ ∀ c ∈ cs, isNumeric c = true

theorem isDigit_of_mem_toString {n : ℕ} {c : Char} (h : c ∈ (toString n).toList) :
    c.isDigit = true := by
  rw [show toString n = n.repr from rfl, Nat.toList_repr] at h
  exact Nat.isDigit_of_mem_toDigits (by omega) (by omega) h

theorem isUnsigned_toString (n : ℕ) : IsUnsigned (toString n).toList := by
  refine ⟨?_, fun c hc => isNumeric_of_isDigit (isDigit_of_mem_toString hc)⟩
  rw [show toString n = n.repr from rfl, Nat.toList_repr]
  exact Nat.toDigits_ne_nil

theorem isNumeric_of_mem_replicate {n : ℕ} {c : Char} (h : c ∈ List.replicate n '0') :
    isNumeric c = true := by
  rw [List.eq_of_mem_replicate h]
  rfl

theorem isUnsigned_positional (d : Digits) : IsUnsigned (positional d).toList := by
  obtain ⟨hne, hnumeric⟩ := isUnsigned_toString d.digits
  unfold positional
  dsimp only
  split_ifs
  · rw [String.toList_append, String.toList_ofList]
    refine ⟨List.append_ne_nil_of_left_ne_nil hne _, fun c hc => ?_⟩
    rcases List.mem_append.mp hc with hc | hc
    · exact hnumeric c hc
    · exact isNumeric_of_mem_replicate hc
  · generalize hpadded : List.replicate _ '0' ++ (toString d.digits).toList = padded
    have hall : ∀ c ∈ padded, isNumeric c = true := by
      rw [← hpadded]
      intro c hc
      rcases List.mem_append.mp hc with hc | hc
      · exact isNumeric_of_mem_replicate hc
      · exact hnumeric c hc
    simp only [String.toList_append, String.toList_ofList]
    refine ⟨by simp, fun c hc => ?_⟩
    rcases List.mem_append.mp hc with hc | hc
    · rcases List.mem_append.mp hc with hc | hc
      · exact hall c (List.mem_of_mem_take hc)
      · rw [show c = '.' by simpa using hc]
        rfl
    · exact hall c (List.mem_of_mem_drop hc)

end Decimal

namespace Numeral

open Decimal

def ReadsBack (x : Float) : Prop := Numeral.read? (Numeral.text x).toList = some x

instance (x : Float) : Decidable (ReadsBack x) := inferInstanceAs (Decidable (_ = _))

variable {x : Float} {ds : List Char}

/-- A number is written as a sign that may be missing, then digits or a word. -/
theorem text_cases (x : Float) : ∃ negative s, Numeral.text x = signText negative ++ s ∧
    (IsUnsigned s.toList ∨ s = "inf" ∨ s = "NaN" ∧ negative = false) := by
  have htext : Numeral.text x = plainText x := rfl
  rw [htext]
  unfold plainText
  split
  · exact ⟨false, "NaN", rfl, .inr (.inr ⟨rfl, rfl⟩)⟩
  · exact ⟨_, "inf", rfl, .inr (.inl rfl)⟩
  · exact ⟨_, _, rfl, .inl (isUnsigned_toString 0)⟩
  · exact ⟨_, _, rfl, .inl (isUnsigned_positional _)⟩

theorem exists_isUnsigned (hfinite : Scalar.isFinite x = true) (hback : ReadsBack x) :
    ∃ negative s, Numeral.text x = signText negative ++ s ∧ IsUnsigned s.toList := by
  have hno {t : String} {y : Float} (htext : Numeral.text x = t)
      (hread : Numeral.read? t.toList = some y) : Scalar.isFinite y ≠ false := by
    rw [ReadsBack, htext, hread, Option.some.injEq] at hback
    rw [hback, hfinite]
    exact Bool.true_eq_false.mp
  obtain ⟨negative, s, htext, hs⟩ := text_cases x
  refine ⟨negative, s, htext, hs.resolve_right ?_⟩
  rintro (rfl | ⟨rfl, rfl⟩)
  · cases negative
    · exact hno htext (y := 1 / 0) (by decide +kernel) (by decide +kernel)
    · exact hno htext (y := -(1 / 0)) (by decide +kernel) (by decide +kernel)
  · exact hno htext (y := 0 / 0) (by decide +kernel) (by decide +kernel)

theorem read?_neg (h : IsUnsigned ds) :
    (Numeral.read? ('-' :: ds) : Option Float) = (Numeral.read? ds).map (-·) := by
  have hsplit : splitSign ('-' :: ds) = (true, ds) := rfl
  change (literal? ('-' :: ds)).map Literal.toFloat =
    ((literal? ds).map Literal.toFloat).map (-·)
  rw [Linear.literal?_of_splitSign hsplit h.1 h.2, Linear.literal?_of_isNumeric h.1 h.2]
  unfold unsigned?
  dsimp only
  split_ifs
  · rfl
  · simp only [Option.map_map]
    rfl

end Numeral

end Optima
