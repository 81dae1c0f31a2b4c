import PropertyGraph.Proofs.Json.Magnitude
import PropertyGraph.Proofs.Json.Reading

/-!
# Reading numbers back

What the texts of integers and of floating-point values are read as.  An integer is read as itself; the text of
a finite value, positional or with an exponent, is read as a double that its digits and their place determine
(`Layout.parts`), though it need not be the value that was written.  The key facts: `reads_integer`,
`reads_double` and `reads_single`.
-/

namespace PropertyGraph

open BinaryFormat

namespace Json.Reader

/-! ### Runs of digits -/

/-- A rest that does not begin with a digit. -/
def NoDigit (rest : List Char) : Prop := ∀ c ∈ rest.head?, c.isDigit = false

theorem Ends.noDigit {rest : List Char} (h : Ends rest) : NoDigit rest := fun c hc => (h c hc).1

theorem noDigit_cons {c : Char} (h : c.isDigit = false) (rest : List Char) : NoDigit (c :: rest) := by
  intro d hd
  obtain rfl := Option.some.inj hd
  exact h

theorem run_digits_append {ds : List Char} (hds : ∀ c ∈ ds, c.isDigit = true) {rest : List Char}
    (hrest : NoDigit rest) : digits.run (ds ++ rest) = .ok ds rest := by
  obtain ⟨htake, hdrop⟩ := Decimal.takeWhile_dropWhile_append hds hrest
  rw [run_digits, htake, hdrop]

/-- Digits whose number stays within the limit are all taken. -/
theorem absorb_eq {limit acc : Nat} {ds : List Char}
    (h : acc * tenPow ds.length + Decimal.value ds ≤ limit) :
    absorb limit acc ds = (acc * tenPow ds.length + Decimal.value ds, []) := by
  induction ds generalizing acc with
  | nil => simp [absorb, Decimal.value, tenPow]
  | cons c ds ih =>
    have hsplit : acc * tenPow (c :: ds).length + Decimal.value (c :: ds) =
        (acc * 10 + Decimal.digitValue c) * tenPow ds.length + Decimal.value ds := by
      rw [Decimal.value_cons, List.length_cons, tenPow_succ]
      ring
    rw [hsplit] at h ⊢
    have hhead : acc * 10 + Decimal.digitValue c ≤ limit := by
      have := Nat.le_mul_of_pos_right (acc * 10 + Decimal.digitValue c) (tenPow_pos ds.length)
      omega
    rw [absorb, if_pos hhead, ih h]

theorem absorb_zero_eq {limit : Nat} {ds : List Char} (h : Decimal.value ds ≤ limit) :
    absorb limit 0 ds = (Decimal.value ds, []) := by
  have hsum : 0 * tenPow ds.length + Decimal.value ds = Decimal.value ds := by omega
  have habsorb : absorb limit 0 ds = (0 * tenPow ds.length + Decimal.value ds, []) := absorb_eq (by omega)
  rwa [hsum] at habsorb

/-- Digits that make up more than a bound are taken until their number is above it, if the limit has room for a
digit more than the bound has. -/
theorem lt_absorb {bound limit acc : Nat} (hroom : (bound + 1) * 10 ≤ limit + 1) {ds : List Char}
    (hds : ∀ c ∈ ds, c.isDigit = true) (h : bound < acc * tenPow ds.length + Decimal.value ds) :
    bound < (absorb limit acc ds).1 := by
  induction ds generalizing acc with
  | nil =>
    have hacc : acc * tenPow ([] : List Char).length + Decimal.value [] = acc := by simp [Decimal.value, tenPow]
    rwa [hacc] at h
  | cons c ds ih =>
    have hdigit : Decimal.digitValue c ≤ 9 := Decimal.digitValue_le (hds c (List.mem_cons_self ..))
    have hsplit : acc * tenPow (c :: ds).length + Decimal.value (c :: ds) =
        (acc * 10 + Decimal.digitValue c) * tenPow ds.length + Decimal.value ds := by
      rw [Decimal.value_cons, List.length_cons, tenPow_succ]
      ring
    unfold absorb
    by_cases hfits : acc * 10 + Decimal.digitValue c ≤ limit
    · rw [if_pos hfits]
      rw [hsplit] at h
      exact ih (fun d hd => hds d (List.mem_cons_of_mem _ hd)) h
    · -- the digit that has no room any more tells how large the number is already
      rw [if_neg hfits]
      show bound < acc
      omega

/-- The digits before the point of a number: a zero on its own, or digits of which the first is not zero. -/
structure IsWhole (ds : List Char) : Prop where
  isDigit : ∀ c ∈ ds, c.isDigit = true
  ne_nil : ds ≠ []
  no_leading_zero : ds = ['0'] ∨ ds.head? ≠ some '0'

theorem isWhole_zero : IsWhole ['0'] := ⟨by simp, by simp, .inl rfl⟩

theorem isWhole_digits (n : Nat) : IsWhole (Decimal.digits n) := by
  refine ⟨Decimal.forall_isDigit_digits n, Decimal.digits_ne_nil n, ?_⟩
  rcases Nat.eq_zero_or_pos n with rfl | hn
  · left
    rw [Decimal.digits]
    rfl
  · exact .inr (Decimal.head?_digits_ne_zero hn)

/-- After its digits before the point a number is read on from there. -/
theorem run_number {ds : List Char} (hds : IsWhole ds) (negative : Bool) {rest : List Char}
    (hrest : NoDigit rest) :
    (number negative).run (ds ++ rest) = (afterInteger negative ds).run rest := by
  unfold number
  rw [run_bind_of_ok (run_peek _)]
  rcases hds.no_leading_zero with rfl | hzero
  · show EStateM.run (advance >>= fun _ => peek >>= _) ('0' :: rest) = _
    rw [run_bind_of_ok (run_advance _), List.tail_cons, run_bind_of_ok (run_peek _)]
    cases rest with
    | nil => rfl
    | cons c rest =>
      have hc : c.isDigit = false := hrest c rfl
      simp [hc]
  · obtain ⟨c, s, rfl⟩ := List.exists_cons_of_ne_nil hds.ne_nil
    have hc : c.isDigit = true := hds.isDigit c (List.mem_cons_self ..)
    have hne : c ≠ '0' := fun h => hzero (by rw [h]; rfl)
    rw [List.cons_append, List.head?_cons]
    split
    · rename_i h
      cases h
    · rename_i h
      exact absurd (Option.some.inj h) hne
    · rename_i h
      obtain rfl := Option.some.inj h
      rw [if_pos hc, ← List.cons_append, run_bind_of_ok (run_digits_append hds.isDigit hrest)]

/-! ### Integers -/

theorem run_afterInteger_ends {negative : Bool} {ds : List Char} (hds : Decimal.value ds ≤ significandLimit)
    {n : Int} (hn : n = if negative then -(Decimal.value ds : Int) else Decimal.value ds) (hfits : fitsInteger n)
    (hzero : ¬(negative = true ∧ Decimal.value ds = 0)) {rest : List Char} (hrest : Ends rest) :
    (afterInteger negative ds).run rest = .ok (.integer n hfits) rest := by
  subst hn
  unfold afterInteger
  rw [absorb_zero_eq hds]
  dsimp only
  rw [run_bind_of_ok (run_peek _), if_neg, if_neg, dif_pos ⟨rfl, hzero, hfits⟩, EStateM.run_pure]
  · rintro (h | h)
    · exact (hrest _ h).2.2.1 rfl
    · exact (hrest _ h).2.2.2 rfl
  · intro h
    exact (hrest _ h).2.1 rfl

/-! ### Fractions and exponents -/

theorem run_exponentPart (negative : Bool) (significand : Nat) (exponent : Int) {written : Int}
    (hwritten : written.natAbs ≤ exponentLimit) {rest : List Char} (hrest : NoDigit rest) :
    (exponentPart negative significand exponent).run
        ((if 0 ≤ written then ['+'] else []) ++ Decimal.signed written ++ rest) =
      (double negative significand (exponent + written)).run rest := by
  obtain ⟨d, ds, hd⟩ := List.exists_cons_of_ne_nil (Decimal.digits_ne_nil written.natAbs)
  have hvalue := Decimal.value_digits written.natAbs
  have hdigits := run_digits_append (Decimal.forall_isDigit_digits written.natAbs) hrest
  have habsorb : absorb exponentLimit 0 (Decimal.digits written.natAbs) = (written.natAbs, []) := by
    rw [absorb_zero_eq (by rw [hvalue]; exact hwritten), hvalue]
  unfold exponentPart Decimal.signed
  by_cases hneg : written < 0
  · rw [if_neg (by omega), if_pos hneg, List.nil_append, List.cons_append, run_bind_of_ok (run_peek _),
      List.head?_cons, if_pos (.inr rfl), run_bind_of_ok (run_advance _), List.tail_cons,
      run_bind_of_ok hdigits, run_bind_of_ok (run_peek _)]
    rw [hd] at habsorb ⊢
    dsimp only
    rw [habsorb]
    dsimp only
    rw [if_pos rfl, show exponent - (written.natAbs : Int) = exponent + written by omega]
  · rw [if_pos (by omega), if_neg hneg, List.cons_append, List.nil_append, List.cons_append,
      run_bind_of_ok (run_peek _), List.head?_cons, if_pos (.inl rfl), run_bind_of_ok (run_advance _),
      List.tail_cons, run_bind_of_ok hdigits, run_bind_of_ok (run_peek _)]
    rw [hd] at habsorb ⊢
    dsimp only
    rw [habsorb]
    dsimp only
    rw [if_neg (by decide), show exponent + (written.natAbs : Int) = exponent + written by omega]

theorem run_exponentIfAny_ends (negative : Bool) (significand : Nat) (exponent : Int) {rest : List Char}
    (hrest : Ends rest) : (exponentIfAny negative significand exponent).run rest =
      (double negative significand exponent).run rest := by
  unfold exponentIfAny
  rw [run_bind_of_ok (run_peek _), if_neg]
  rintro (h | h)
  · exact (hrest _ h).2.2.1 rfl
  · exact (hrest _ h).2.2.2 rfl

/-- A fraction is taken into the significand, and its digits off the exponent. -/
theorem run_afterInteger_fraction {negative : Bool} {whole part : List Char} (hpart : part ≠ [])
    (hdigits : ∀ c ∈ part, c.isDigit = true) (hlimit : Decimal.value (whole ++ part) ≤ significandLimit)
    {rest : List Char} (hrest : NoDigit rest) :
    (afterInteger negative whole).run ('.' :: (part ++ rest)) =
      (exponentIfAny negative (Decimal.value (whole ++ part)) (-(part.length : Int))).run rest := by
  rw [Decimal.value_append] at hlimit ⊢
  have hwhole : Decimal.value whole ≤ significandLimit := by
    have := Nat.le_mul_of_pos_right (Decimal.value whole) (tenPow_pos part.length)
    omega
  unfold afterInteger
  rw [absorb_zero_eq hwhole]
  dsimp only
  rw [run_bind_of_ok (run_peek _), List.head?_cons, if_pos rfl, run_bind_of_ok (run_advance _), List.tail_cons]
  unfold fractionPart
  rw [run_bind_of_ok (run_digits_append hdigits hrest), run_bind_of_ok (run_peek _)]
  obtain ⟨d, ds, rfl⟩ := List.exists_cons_of_ne_nil hpart
  dsimp only
  rw [absorb_eq hlimit]
  dsimp only
  rw [show ((([] : List Char).length : Nat) : Int) - ((d :: ds).length - ([] : List Char).length) =
    -((d :: ds).length : Int) by simp only [List.length_nil]; omega]

/-! ### Numbers with a point or an exponent -/

/-- The exponent of a number as it is written. -/
def exponentText (written : Int) : List Char :=
  'e' :: ((if 0 ≤ written then ['+'] else []) ++ Decimal.signed written)

private theorem noDigit_exponent (written : Int) (rest : List Char) : NoDigit (exponentText written ++ rest) :=
  noDigit_cons (by decide) _

private theorem run_exponentIfAny_exponent (negative : Bool) (significand : Nat) (exponent : Int) {written : Int}
    (hwritten : written.natAbs ≤ exponentLimit) {rest : List Char} (hrest : Ends rest) :
    (exponentIfAny negative significand exponent).run (exponentText written ++ rest) =
      (double negative significand (exponent + written)).run rest := by
  rw [← run_exponentPart negative significand exponent hwritten hrest.noDigit]
  unfold exponentIfAny exponentText
  rw [List.cons_append, run_bind_of_ok (run_peek _), if_pos (.inl rfl), run_bind_of_ok (run_advance _),
    List.tail_cons]

/-- A whole part and a fraction are read as their digits, the fraction's taken off the exponent. -/
theorem run_number_fraction {whole : List Char} (hwhole : IsWhole whole) (part : List Char) (hpart : part ≠ [])
    (hdigits : ∀ c ∈ part, c.isDigit = true) (hlimit : Decimal.value (whole ++ part) ≤ significandLimit)
    (negative : Bool) {rest : List Char} (hrest : Ends rest) :
    (number negative).run (whole ++ '.' :: part ++ rest) =
      (double negative (Decimal.value (whole ++ part)) (-(part.length : Int))).run rest := by
  rw [List.append_assoc, List.cons_append, run_number hwhole negative (noDigit_cons (by decide) _),
    run_afterInteger_fraction hpart hdigits hlimit hrest.noDigit, run_exponentIfAny_ends _ _ _ hrest]

theorem run_number_fraction_exponent {whole : List Char} (hwhole : IsWhole whole) (part : List Char)
    (hpart : part ≠ []) (hdigits : ∀ c ∈ part, c.isDigit = true)
    (hlimit : Decimal.value (whole ++ part) ≤ significandLimit)
    {written : Int} (hwritten : written.natAbs ≤ exponentLimit) (negative : Bool) {rest : List Char}
    (hrest : Ends rest) :
    (number negative).run (whole ++ '.' :: part ++ exponentText written ++ rest) =
      (double negative (Decimal.value (whole ++ part)) (-(part.length : Int) + written)).run rest := by
  rw [List.append_assoc, List.append_assoc, List.cons_append,
    run_number hwhole negative (noDigit_cons (by decide) _),
    run_afterInteger_fraction hpart hdigits hlimit (noDigit_exponent written rest),
    run_exponentIfAny_exponent _ _ _ hwritten hrest]

theorem run_number_exponent {whole : List Char} (hwhole : IsWhole whole)
    (hlimit : Decimal.value whole ≤ significandLimit) {written : Int} (hwritten : written.natAbs ≤ exponentLimit)
    (negative : Bool) {rest : List Char} (hrest : Ends rest) :
    (number negative).run (whole ++ exponentText written ++ rest) =
      (double negative (Decimal.value whole) written).run rest := by
  have hexp := run_exponentPart negative (Decimal.value whole) 0 hwritten hrest.noDigit
  rw [Int.zero_add] at hexp
  rw [← hexp, List.append_assoc, run_number hwhole negative (noDigit_exponent written rest)]
  unfold afterInteger exponentText
  rw [absorb_zero_eq hlimit]
  dsimp only
  rw [List.cons_append, run_bind_of_ok (run_peek _), List.head?_cons, if_neg (by decide), if_pos (.inl rfl),
    run_bind_of_ok (run_advance _), List.tail_cons]
  rfl

end Json.Reader

/-! ### The text of a finite value -/

namespace Layout

/-- The number that digits set out by a layout are read as, as a significand and an exponent of ten: a whole
number that is written positionally has one place behind its point. -/
def parts (L : Layout) (s : Significant) : Nat × Int :=
  if L.isPositional s.exponent ∧ (s.digits.length : Int) ≤ s.exponent + 1 then
    (Decimal.value s.digits * tenPow (s.exponent + 2 - s.digits.length).toNat, -1)
  else (Decimal.value s.digits, s.lastExponent)

/-- The double that the text of a finite value is read as. -/
def reread {F : BinaryFormat} (L : Layout) (x : Finite F) : Binary64 :=
  let number := L.parts (F.shortest L.tie x.ordinal)
  .ofOrdinal x.negative (Json.Reader.scaledOrdinal number.1 number.2)

/-- A layout that writes numbers as JSON has them, and no long ones without an exponent. -/
structure IsJson (L : Layout) : Prop where
  fraction : L.fraction = true
  plus : L.plus = true
  exponent_le : ∀ exponent : Int, L.isPositional exponent = true → exponent ≤ 15

theorem isJson_json64 : json64.IsJson := by
  refine ⟨rfl, rfl, fun exponent h => ?_⟩
  simp [isPositional, json64] at h
  exact h.2

theorem isJson_json32 : json32.IsJson := by
  refine ⟨rfl, rfl, fun exponent h => ?_⟩
  simp [isPositional, json32] at h
  omega

end Layout

namespace Json.Reader

open Layout

variable {s : Significant}

/-- Digits that a number can begin with and that the significand has room for. -/
structure Readable (s : Significant) : Prop where
  isWhole : IsWhole s.digits
  length_le : s.digits.length ≤ 17
  exponent_eq : s.digits = ['0'] → s.exponent = 0

theorem Readable.value_lt (h : Readable s) : Decimal.value s.digits < tenPow 17 :=
  Nat.lt_of_lt_of_le (Decimal.value_lt h.isWhole.isDigit) (tenPow_le_tenPow h.length_le)

private theorem tenPow_17_le : tenPow 17 ≤ significandLimit := by decide

/-- The first of the digits on its own is a whole part, and so are any more if it is not a zero. -/
private theorem isWhole_take (h : IsWhole s.digits) {n : Nat} (hn : 0 < n) : IsWhole (s.digits.take n) := by
  obtain ⟨c, ds, hd⟩ := List.exists_cons_of_ne_nil h.ne_nil
  refine ⟨fun d hd => h.isDigit d (List.mem_of_mem_take hd), ?_, ?_⟩
  · rw [hd]
    obtain ⟨n, rfl⟩ := Nat.exists_eq_succ_of_ne_zero (Nat.ne_of_gt hn)
    exact List.cons_ne_nil _ _
  · rcases h.no_leading_zero with hzero | hzero
    · left
      rw [hzero]
      obtain ⟨n, rfl⟩ := Nat.exists_eq_succ_of_ne_zero (Nat.ne_of_gt hn)
      simp
    · right
      rwa [List.head?_take, if_neg (Nat.ne_of_gt hn)]

/-- Zeros fill a whole part up to the point; a zero on its own is not filled up. -/
private theorem isWhole_fill (h : Readable s) :
    IsWhole (s.digits ++ List.replicate (s.exponent.toNat + 1 - s.digits.length) '0') := by
  refine ⟨fun c hc => ?_, by simp [h.isWhole.ne_nil], ?_⟩
  · rcases List.mem_append.1 hc with hc | hc
    · exact h.isWhole.isDigit c hc
    · rw [List.eq_of_mem_replicate hc]
      rfl
  · rcases h.isWhole.no_leading_zero with hzero | hzero
    · left
      rw [hzero, h.exponent_eq hzero]
      rfl
    · right
      rwa [List.head?_append_of_ne_nil _ h.isWhole.ne_nil]

theorem run_number_positional (h : Readable s) {L : Layout} (hL : L.IsJson)
    (hpos : L.isPositional s.exponent = true) (negative : Bool) {rest : List Char} (hrest : Ends rest) :
    (number negative).run (positional L.fraction s ++ rest) =
      (double negative (L.parts s).1 (L.parts s).2).run rest := by
  have hlen : 0 < s.digits.length := List.length_pos_iff.2 h.isWhole.ne_nil
  have hmost := hL.exponent_le s.exponent hpos
  rw [hL.fraction]
  unfold positional
  split
  · rename_i hneg
    have hparts : L.parts s = (Decimal.value s.digits, s.lastExponent) := if_neg (by omega)
    have hzeros : Decimal.value (['0'] ++ (List.replicate (-s.exponent - 1).toNat '0' ++ s.digits)) =
        Decimal.value s.digits := by
      rw [List.singleton_append, ← List.cons_append, ← List.replicate_succ, Decimal.value_append,
        Decimal.value_replicate_zero, Nat.zero_mul, Nat.zero_add]
    have hnumber := run_number_fraction isWhole_zero
      (List.replicate (-s.exponent - 1).toNat '0' ++ s.digits) (by simp [h.isWhole.ne_nil])
      (by
        intro c hc
        rcases List.mem_append.1 hc with hc | hc
        · rw [List.eq_of_mem_replicate hc]
          rfl
        · exact h.isWhole.isDigit c hc)
      (by rw [hzeros]; exact Nat.le_trans (Nat.le_of_lt h.value_lt) tenPow_17_le) negative hrest
    rw [hzeros, List.length_append, List.length_replicate] at hnumber
    rw [hparts]
    rw [show -(((-s.exponent - 1).toNat + s.digits.length : Nat) : Int) = s.lastExponent by
      unfold Significant.lastExponent
      omega] at hnumber
    exact hnumber
  · rename_i hnonneg
    dsimp only
    split
    · rename_i hle
      -- a whole number: zeros fill up to the point, and one more stands behind it
      have hparts : L.parts s =
          (Decimal.value s.digits * tenPow (s.exponent + 2 - s.digits.length).toNat, -1) :=
        if_pos ⟨hpos, by omega⟩
      have hvalue : Decimal.value (s.digits ++ List.replicate (s.exponent.toNat + 1 - s.digits.length) '0' ++
          ['0']) = Decimal.value s.digits * tenPow (s.exponent + 2 - s.digits.length).toNat := by
        rw [List.append_assoc, ← List.replicate_succ', Decimal.value_append, Decimal.value_replicate_zero,
          Nat.add_zero, List.length_replicate,
          show s.exponent.toNat + 1 - s.digits.length + 1 = (s.exponent + 2 - s.digits.length).toNat by omega]
      have hlimit : Decimal.value s.digits * tenPow (s.exponent + 2 - s.digits.length).toNat ≤
          significandLimit := by
        calc Decimal.value s.digits * tenPow (s.exponent + 2 - s.digits.length).toNat
            ≤ tenPow s.digits.length * tenPow (s.exponent + 2 - s.digits.length).toNat :=
              Nat.mul_le_mul_right _ (Nat.le_of_lt (Decimal.value_lt h.isWhole.isDigit))
          _ = tenPow (s.digits.length + (s.exponent + 2 - s.digits.length).toNat) := (tenPow_add _ _).symm
          _ ≤ tenPow 17 := tenPow_le_tenPow (by omega)
          _ ≤ significandLimit := tenPow_17_le
      have hnumber := run_number_fraction (isWhole_fill h) ['0'] (by simp) (by simp)
        (by rwa [hvalue]) negative hrest
      rw [hvalue] at hnumber
      rw [hparts]
      exact hnumber
    · rename_i hgt
      have hparts : L.parts s = (Decimal.value s.digits, s.lastExponent) := if_neg (by omega)
      have hnumber := run_number_fraction (isWhole_take h.isWhole (n := s.exponent.toNat + 1) (by omega))
        (s.digits.drop (s.exponent.toNat + 1)) (by simp; omega)
        (fun c hc => h.isWhole.isDigit c (List.mem_of_mem_drop hc))
        (by
          rw [List.take_append_drop]
          exact Nat.le_trans (Nat.le_of_lt h.value_lt) tenPow_17_le) negative hrest
      rw [List.take_append_drop, List.length_drop] at hnumber
      rw [hnumber, hparts]
      congr 2
      unfold Significant.lastExponent
      omega

theorem run_number_scientific (h : Readable s) {L : Layout} (hL : L.IsJson)
    (hpos : L.isPositional s.exponent = false) (hexp : s.exponent.natAbs ≤ exponentLimit) (negative : Bool)
    {rest : List Char} (hrest : Ends rest) :
    (number negative).run (scientific L.plus s ++ rest) =
      (double negative (L.parts s).1 (L.parts s).2).run rest := by
  have hparts : L.parts s = (Decimal.value s.digits, s.lastExponent) := if_neg (by simp [hpos])
  have hlimit : Decimal.value s.digits ≤ significandLimit :=
    Nat.le_trans (Nat.le_of_lt h.value_lt) tenPow_17_le
  have htext : scientific L.plus s =
      s.digits.take 1 ++ (if (s.digits.drop 1).isEmpty then [] else '.' :: s.digits.drop 1) ++
        exponentText s.exponent := by
    unfold scientific exponentText
    simp [hL.plus]
  rw [htext, hparts]
  -- a digit that is alone stands without a point
  split
  · rename_i hempty
    have hdrop : s.digits.drop 1 = [] := List.isEmpty_iff.1 hempty
    have hall : s.digits.take 1 = s.digits := by
      have := List.take_append_drop 1 s.digits
      rwa [hdrop, List.append_nil] at this
    have hlen : s.digits.length = 1 := by
      have := List.length_pos_iff.2 h.isWhole.ne_nil
      rw [List.drop_eq_nil_iff] at hdrop
      omega
    rw [hall, List.append_nil, run_number_exponent h.isWhole hlimit hexp negative hrest]
    congr 2
    unfold Significant.lastExponent
    omega
  · rename_i hnonempty
    have hnumber := run_number_fraction_exponent (isWhole_take h.isWhole (n := 1) (by decide))
      (s.digits.drop 1) (by simpa using hnonempty)
      (fun c hc => h.isWhole.isDigit c (List.mem_of_mem_drop hc))
      (by rwa [List.take_append_drop]) hexp negative hrest
    rw [List.take_append_drop] at hnumber
    rw [hnumber]
    congr 2
    have := List.length_pos_iff.2 h.isWhole.ne_nil
    rw [List.length_drop]
    unfold Significant.lastExponent
    omega

theorem readable_shortest {F : BinaryFormat} (tie : Tie) (ordinal : Nat) : Readable (F.shortest tie ordinal) := by
  rcases Nat.eq_zero_or_pos ordinal with rfl | hpos
  · exact ⟨isWhole_zero, Nat.le_add_left 1 16, fun _ => rfl⟩
  · obtain ⟨hspelled, -⟩ := shortest_spec (F := F) tie hpos
    refine ⟨⟨hspelled.isDigit, hspelled.ne_nil, .inr hspelled.head?_ne⟩, hspelled.length_le, fun hzero => ?_⟩
    exact absurd (by rw [hzero]; rfl) hspelled.head?_ne

theorem run_number_layout (h : Readable s) {L : Layout} (hL : L.IsJson) (hexp : s.exponent.natAbs ≤ exponentLimit)
    (negative : Bool) {rest : List Char} (hrest : Ends rest) :
    (number negative).run
        ((if L.isPositional s.exponent then positional L.fraction s else scientific L.plus s) ++ rest) =
      (double negative (L.parts s).1 (L.parts s).2).run rest := by
  split
  · rename_i hpos
    exact run_number_positional h hL hpos negative hrest
  · rename_i hpos
    exact run_number_scientific h hL (by simpa using hpos) hexp negative hrest

theorem head?_layout (h : Readable s) (L : Layout) :
    ∃ d ∈ (if L.isPositional s.exponent then positional L.fraction s else scientific L.plus s).head?,
      d.isDigit = true := by
  obtain ⟨d, ds, hd⟩ := List.exists_cons_of_ne_nil h.isWhole.ne_nil
  have hdigit : d.isDigit = true := h.isWhole.isDigit d (hd ▸ List.mem_cons_self ..)
  unfold positional scientific
  rw [hd]
  split
  · split
    · exact ⟨'0', rfl, rfl⟩
    · dsimp only
      split
      · exact ⟨d, rfl, hdigit⟩
      · exact ⟨d, rfl, hdigit⟩
  · exact ⟨d, rfl, hdigit⟩

/-! ### Numbers where a value begins -/

private theorem run_lead_minus (body : List Char) :
    lead.run ('-' :: body) = ((fun n => Lead.scalar (.number n)) <$> number true).run body := by
  unfold lead
  rw [run_bind_of_ok (run_peekToken _), map_eq_pure_bind]
  show EStateM.run (advance >>= fun _ => number true >>= fun n => pure (Lead.scalar (.number n))) ('-' :: body) = _
  rw [run_bind_of_ok (run_advance _), List.tail_cons]

private theorem not_isBlank_of_isDigit {d : Char} (h : d.isDigit = true) : isBlank d = false := by
  have hc : '0'.val ≤ d.val ∧ d.val ≤ '9'.val := by simpa [Char.isDigit] using h
  have hge : 48 ≤ d.toNat := hc.1
  have hle : d.toNat ≤ 57 := hc.2
  simp [isBlank, blankRanges]
  omega

private theorem run_lead_digit {d : Char} (hd : d.isDigit = true) (body : List Char) :
    lead.run (d :: body) = ((fun n => Lead.scalar (.number n)) <$> number false).run (d :: body) := by
  have hblank := not_isJsonBlank (not_isBlank_of_isDigit hd)
  unfold lead
  rw [run_bind_of_ok (run_peekToken _), List.dropWhile_cons_of_neg (by simp [hblank]), List.head?_cons]
  split
  case h_1 h => cases h
  case h_9 =>
    rename_i heq
    obtain rfl := Option.some.inj heq
    rw [if_pos hd, map_eq_pure_bind]
  all_goals
    rename_i heq
    obtain rfl := Option.some.inj heq
    cases hd

/-- Where a number stands its sign is taken first. -/
theorem run_lead_number (negative : Bool) {body : List Char} (hbegin : ∃ d ∈ body.head?, d.isDigit = true) :
    lead.run ((if negative then ['-'] else []) ++ body) =
      ((fun n => Lead.scalar (.number n)) <$> number negative).run body := by
  obtain ⟨d, hd, hdigit⟩ := hbegin
  obtain ⟨ds, rfl⟩ : ∃ ds, body = d :: ds := by
    cases body with
    | nil => cases hd
    | cons c ds => exact ⟨ds, by rw [Option.some.inj hd]⟩
  cases negative with
  | true => exact run_lead_minus (d :: ds)
  | false => exact run_lead_digit hdigit ds

theorem head?_append_isDigit {body : List Char} (h : ∃ d ∈ body.head?, d.isDigit = true) (rest : List Char) :
    ∃ d ∈ (body ++ rest).head?, d.isDigit = true := by
  obtain ⟨d, hd, hdigit⟩ := h
  refine ⟨d, ?_, hdigit⟩
  rw [List.head?_append, Option.mem_def.1 hd]
  rfl

theorem reads_lead_number {negative : Bool} {body : List Char} (hbegin : ∃ d ∈ body.head?, d.isDigit = true)
    {n : Number} (h : Reads (number negative) body n) :
    Reads lead ((if negative then ['-'] else []) ++ body) (.scalar (.number n)) := by
  intro rest hrest
  rw [List.append_assoc, run_lead_number negative (head?_append_isDigit hbegin rest)]
  exact run_map_of_ok (h rest hrest) _

theorem starts_number {negative : Bool} {body : List Char} (hbegin : ∃ d ∈ body.head?, d.isDigit = true) :
    Starts ((if negative then ['-'] else []) ++ body) := by
  obtain ⟨d, hd, hdigit⟩ := hbegin
  obtain ⟨ds, rfl⟩ : ∃ ds, body = d :: ds := by
    cases body with
    | nil => cases hd
    | cons c ds => exact ⟨ds, by rw [Option.some.inj hd]⟩
  cases negative with
  | true => exact ⟨'-', d :: ds, rfl, by decide, by decide⟩
  | false =>
    refine ⟨d, ds, rfl, not_isBlank_of_isDigit hdigit, ?_⟩
    rintro rfl
    cases hdigit

theorem signed_eq (n : Int) :
    Decimal.signed n = (if decide (n < 0) then ['-'] else []) ++ Decimal.digits n.natAbs := by
  unfold Decimal.signed
  by_cases h : n < 0 <;> simp [h]

theorem head?_digits (n : Nat) : ∃ d ∈ (Decimal.digits n).head?, d.isDigit = true := by
  obtain ⟨d, ds, hd⟩ := List.exists_cons_of_ne_nil (Decimal.digits_ne_nil n)
  exact ⟨d, by rw [hd]; rfl, Decimal.forall_isDigit_digits n d (hd ▸ List.mem_cons_self ..)⟩

theorem reads_integer {n : Int} (hfits : fitsInteger n) :
    Reads lead (Decimal.signed n) (.scalar (.number (.integer n hfits))) := by
  rw [signed_eq]
  refine reads_lead_number (head?_digits n.natAbs) fun rest hrest => ?_
  have hvalue := Decimal.value_digits n.natAbs
  obtain ⟨hlow, hhigh⟩ := hfits
  rw [run_number (isWhole_digits n.natAbs) _ hrest.noDigit]
  refine run_afterInteger_ends ?_ ?_ _ ?_ hrest
  · rw [hvalue]
    unfold significandLimit
    omega
  · rw [hvalue]
    by_cases hneg : n < 0
    · rw [decide_eq_true hneg, if_pos rfl]
      omega
    · rw [decide_eq_false hneg, if_neg (by decide)]
      omega
  · rintro ⟨hneg, hzero⟩
    rw [hvalue] at hzero
    have := of_decide_eq_true hneg
    omega

theorem starts_integer (n : Int) : Starts (Decimal.signed n) := by
  rw [signed_eq]
  exact starts_number (head?_digits n.natAbs)

/-- The text of a finite value is read as a double if what its digits amount to is not too large. -/
theorem reads_finite {F : BinaryFormat} {L : Layout} (hL : L.IsJson) (x : Finite F) {y : Finite64}
    (hexp : (F.shortest L.tie x.ordinal).exponent.natAbs ≤ exponentLimit) (hy : L.reread x = .finite y) :
    Reads lead (L.finite x) (.scalar (.number (.double y))) := by
  have hreadable := readable_shortest (F := F) L.tie x.ordinal
  refine reads_lead_number (head?_layout hreadable L) fun rest hrest => ?_
  rw [run_number_layout hreadable hL hexp _ hrest]
  unfold double
  rw [show Binary.ofOrdinal x.negative _ = Binary.finite y from hy]
  rfl

theorem starts_finite {F : BinaryFormat} (L : Layout) (x : Finite F) : Starts (L.finite x) :=
  starts_number (head?_layout (readable_shortest (F := F) L.tie x.ordinal) L)

end Json.Reader

/-! ### Doubles and singles -/

namespace Layout

open Json.Reader

/-- The significand that is read has at most 19 digits. -/
theorem parts_fst_lt {L : Layout} (hL : L.IsJson) {s : Significant} (h : Readable s) : (L.parts s).1 < tenPow 19 := by
  unfold parts
  split
  · rename_i hpositional
    obtain ⟨hpos, hle⟩ := hpositional
    have hmost := hL.exponent_le s.exponent hpos
    calc Decimal.value s.digits * tenPow (s.exponent + 2 - s.digits.length).toNat
        < tenPow s.digits.length * tenPow (s.exponent + 2 - s.digits.length).toNat :=
          Nat.mul_lt_mul_of_pos_right (Decimal.value_lt h.isWhole.isDigit) (tenPow_pos _)
      _ = tenPow (s.digits.length + (s.exponent + 2 - s.digits.length).toNat) := (tenPow_add _ _).symm
      _ ≤ tenPow 19 := tenPow_le_tenPow (by omega)
  · exact Nat.lt_of_lt_of_le h.value_lt (tenPow_le_tenPow (by decide))

/-- What a finite value is read as is finite if the digits followed by zeros up to the point are. -/
private theorem exists_reread {F : BinaryFormat} {L : Layout} (hL : L.IsJson) (x : Finite F)
    (hwhole : 0 < x.ordinal → ∀ last : Nat, (F.shortest L.tie x.ordinal).lastExponent = last →
      scaledOrdinal (Decimal.value (F.shortest L.tie x.ordinal).digits) last < binary64.infinity) :
    ∃ y, L.reread x = .finite y := by
  have hreadable := readable_shortest (F := F) L.tie x.ordinal
  suffices h : scaledOrdinal (L.parts (F.shortest L.tie x.ordinal)).1 (L.parts (F.shortest L.tie x.ordinal)).2 <
      binary64.infinity by
    exact ⟨⟨x.negative, _, h⟩, by rw [reread, Binary.ofOrdinal, dif_pos h]⟩
  generalize hs : F.shortest L.tie x.ordinal = s at hreadable hwhole
  -- digits with a point among them are few; only digits followed by zeros can be too large
  by_cases hneg : (L.parts s).2 < 0
  · exact scaledOrdinal_lt_of_neg (parts_fst_lt hL hreadable) hneg
  · have hparts : L.parts s = (Decimal.value s.digits, s.lastExponent) := by
      refine if_neg fun hpositional => hneg ?_
      rw [parts, if_pos hpositional]
      exact Int.negSucc_lt_zero 0
    rw [hparts] at hneg ⊢
    obtain ⟨last, hlast⟩ := Int.eq_ofNat_of_zero_le (Int.not_lt.1 hneg)
    dsimp only at hlast ⊢
    rw [hlast]
    rcases Nat.eq_zero_or_pos x.ordinal with hzero | hpos
    · rw [hzero] at hs
      rw [← hs] at hlast ⊢
      rw [show last = 0 from (Int.ofNat.inj hlast).symm]
      show scaledOrdinal (Decimal.value ['0']) ((0 : Nat) : Int) < binary64.infinity
      decide +kernel
    · exact hwhole hpos last hlast

theorem exists_reread_json64 (x : Finite64) : ∃ y, json64.reread x = .finite y :=
  exists_reread isJson_json64 x fun hpos _ hlast => scaledOrdinal_shortest64 hpos x.ordinal_lt hlast

theorem exists_reread_json32 (x : Finite .binary32) : ∃ y, json32.reread x = .finite y :=
  exists_reread isJson_json32 x fun hpos _ hlast => scaledOrdinal_shortest32 hpos x.ordinal_lt hlast

end Layout

namespace Json.Reader

private theorem exponent_le_limit {F : BinaryFormat} (tie : Tie) {ordinal : Nat} (hlt : ordinal < F.infinity)
    (hone : F.one ≤ tenPow 700) (hunits : F.units F.infinity ≤ tenPow 700) :
    (F.shortest tie ordinal).exponent.natAbs ≤ exponentLimit := by
  rcases Nat.eq_zero_or_pos ordinal with rfl | hpos
  · exact Nat.zero_le _
  · have hle : F.units ordinal ≤ tenPow 700 := Nat.le_trans (Nat.le_of_lt (units_lt_units hlt)) hunits
    have := natAbs_exponent_le (F := F) tie hpos hone hle
    unfold exponentLimit
    omega

theorem reads_double (x : Finite64) :
    Reads lead (Layout.json64.finite x) (.scalar (.ofBinary (Layout.json64.reread x))) := by
  obtain ⟨y, hy⟩ := Layout.exists_reread_json64 x
  rw [hy]
  exact reads_finite Layout.isJson_json64 x
    (exponent_le_limit _ x.ordinal_lt (by decide +kernel) (by decide +kernel)) hy

theorem reads_single (x : Finite .binary32) :
    Reads lead (Layout.json32.finite x) (.scalar (.ofBinary (Layout.json32.reread x))) := by
  obtain ⟨y, hy⟩ := Layout.exists_reread_json32 x
  rw [hy]
  exact reads_finite Layout.isJson_json32 x
    (exponent_le_limit _ x.ordinal_lt (by decide +kernel) (by decide +kernel)) hy

end Json.Reader

end PropertyGraph
