/-
ShowTree.Proofs.Text.LowerCase — the letters A to Z in the lower-case form of a text.

Besides the characters themselves the lower-case form looks at one thing only: whether a cased
letter comes next to a sigma, and what is passed over on the way to it. A capital of A to Z
and its small letter are alike in all of this (`lowerAt_toLower`), so texts that differ in the
case of these letters only have the same lower-case form (`lower_congr`).
-/
import ShowTree.Text.LowerCase

namespace ShowTree.Text

/-- All that the lower-case form looks at in a character. -/
def traits (c : Char) : Bool × Bool × Char × Bool × Bool :=
  (caseIgnorable.contains c, cased.contains c, smallLetter c capitalRuns, c == 'Σ', c == 'İ')

/-- The letters A to Z are like their small letters in all of this, and these are small already. -/
theorem traits_letters : ∀ n, n < 26 →
    (Char.ofNat (65 + n)).toLower = Char.ofNat (97 + n) ∧
      traits (Char.ofNat (97 + n)) = traits (Char.ofNat (65 + n)) ∧
      smallLetter (Char.ofNat (97 + n)) capitalRuns = Char.ofNat (97 + n) := by
  decide +kernel

/-- So is every character like what `Char.toLower` makes of it, for that leaves all others as they
are. -/
theorem traits_toLower (c : Char) : traits c.toLower = traits c := by
  by_cases hc : c.val ≥ 'A'.val ∧ c.val ≤ 'Z'.val
  · have hlow : 65 ≤ c.toNat := hc.1
    have hhigh : c.toNat ≤ 90 := hc.2
    obtain ⟨hlower, hsame, -⟩ := traits_letters (c.toNat - 65) (by omega)
    rw [← hlower] at hsame
    rwa [Nat.add_sub_cancel' hlow, Char.ofNat_toNat] at hsame
  · have hsame : c.toLower = c := dif_neg hc
    rw [hsame]

theorem caseIgnorable_toLower (c : Char) :
    caseIgnorable.contains c.toLower = caseIgnorable.contains c :=
  congrArg (·.1) (traits_toLower c)

theorem cased_toLower (c : Char) : cased.contains c.toLower = cased.contains c :=
  congrArg (·.2.1) (traits_toLower c)

theorem smallLetter_toLower (c : Char) :
    smallLetter c.toLower capitalRuns = smallLetter c capitalRuns :=
  congrArg (·.2.2.1) (traits_toLower c)

theorem meetsCased_toLower (cs : List Char) : meetsCased (cs.map Char.toLower) = meetsCased cs := by
  induction cs with
  | nil => rfl
  | cons c cs ih =>
    unfold meetsCased at ih ⊢
    rw [List.map_cons, List.dropWhile_cons, List.dropWhile_cons, caseIgnorable_toLower]
    by_cases hc : caseIgnorable.contains c = true
    · rw [if_pos hc, if_pos hc, ih]
    · rw [if_neg hc, if_neg hc]
      exact cased_toLower c

/-- In its place in a text, a letter of A to Z has the lower-case form of its small letter. -/
theorem lowerAt_toLower (before : List Char) (c : Char) (after : List Char) :
    lowerAt (before.map Char.toLower) c.toLower (after.map Char.toLower) =
      lowerAt before c after := by
  have hsigma : (c.toLower = 'Σ') = (c = 'Σ') := by
    have hsame : (c.toLower == 'Σ') = (c == 'Σ') := congrArg (·.2.2.2.1) (traits_toLower c)
    exact propext (beq_iff_eq.symm.trans ((Bool.eq_iff_iff.1 hsame).trans beq_iff_eq))
  have hdotted : (c.toLower = 'İ') = (c = 'İ') := by
    have hsame : (c.toLower == 'İ') = (c == 'İ') := congrArg (·.2.2.2.2) (traits_toLower c)
    exact propext (beq_iff_eq.symm.trans ((Bool.eq_iff_iff.1 hsame).trans beq_iff_eq))
  simp only [lowerAt, hsigma, hdotted, meetsCased_toLower, smallLetter_toLower]

theorem lowerAfter_toLower (before cs : List Char) :
    lowerAfter (before.map Char.toLower) (cs.map Char.toLower) = lowerAfter before cs := by
  induction cs generalizing before with
  | nil => rfl
  | cons c cs ih =>
    rw [List.map_cons, lowerAfter, lowerAfter, lowerAt_toLower, ← List.map_cons, ih]

/-- Texts that differ in the case of A to Z only have the same lower-case form. -/
theorem lower_congr {a b : String} (h : a.toList.map Char.toLower = b.toList.map Char.toLower) :
    lower a = lower b := by
  have hforms : lowerAfter [] a.toList = lowerAfter [] b.toList := by
    rw [← lowerAfter_toLower [] a.toList, h, lowerAfter_toLower]
  rw [lower, lower, hforms]

/-- Whether a text is of the letters a to z. -/
def isSmall (text : String) : Bool :=
  text.toList.all fun c => 97 ≤ c.toNat && c.toNat ≤ 122

theorem lowerAfter_of_small {cs : List Char} (h : ∀ c ∈ cs, 97 ≤ c.toNat ∧ c.toNat ≤ 122) :
    ∀ before, lowerAfter before cs = cs := by
  induction cs with
  | nil => exact fun _ => rfl
  | cons c cs ih =>
    intro before
    obtain ⟨⟨hlow, hhigh⟩, hrest⟩ := List.forall_mem_cons.1 h
    have hsmall : smallLetter c capitalRuns = c := by
      have hletter := (traits_letters (c.toNat - 97) (by omega)).2.2
      rwa [Nat.add_sub_cancel' hlow, Char.ofNat_toNat] at hletter
    have hsigma : c ≠ 'Σ' := by
      rintro rfl
      exact absurd hhigh (by decide)
    have hdotted : c ≠ 'İ' := by
      rintro rfl
      exact absurd hhigh (by decide)
    rw [lowerAfter, lowerAt, if_neg hsigma, if_neg hdotted, hsmall, ih hrest, List.singleton_append]

/-- Such a text is its own lower-case form. -/
theorem lower_of_isSmall {text : String} (h : isSmall text = true) : lower text = text := by
  have hletters : ∀ c ∈ text.toList, 97 ≤ c.toNat ∧ c.toNat ≤ 122 := by
    simpa [isSmall] using h
  rw [lower, lowerAfter_of_small hletters, String.ofList_toList]

theorem map_lower_of_isSmall {texts : List String} (h : texts.all isSmall = true) :
    texts.map lower = texts :=
  (List.map_congr_left fun text htext => lower_of_isSmall (List.all_eq_true.1 h text htext)).trans
    (List.map_id _)

end ShowTree.Text
