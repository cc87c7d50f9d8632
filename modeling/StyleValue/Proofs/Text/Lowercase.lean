import StyleValue.Text.Lowercase

/-!
# Lowercase and the ASCII alphabet

Of all letters outside ASCII only the Kelvin sign has a lowercase inside of it. So the lowercase of
a text is an ASCII text just when folding its letters gives that text, where a letter is folded by
the ASCII rule, and the Kelvin sign to `k`. A text that has no `k` is the lowercase of just those
texts that the ASCII rule takes to it.
-/

set_option autoImplicit false

namespace StyleValue

def kelvinSign : Char := Char.ofNat 0x212a

def foldLetter (c : Char) : Char := if c = kelvinSign then 'k' else lowerAscii c

def foldLetters (text : String) : String := text.map foldLetter

def foldAscii (text : String) : String := text.map lowerAscii

def IsAscii (c : Char) : Prop := c.toNat < 0x80

instance (c : Char) : Decidable (IsAscii c) := inferInstanceAs (Decidable (c.toNat < 0x80))

theorem lowerAscii_of_not_isAscii {c : Char} (h : ¬ IsAscii c) : lowerAscii c = c := by
  unfold lowerAscii
  split
  · next hcapital =>
    have hz : c.toNat ≤ 'Z'.toNat := hcapital.2
    exact absurd (Nat.lt_of_le_of_lt hz (by decide)) h
  · rfl

theorem foldLetter_of_isAscii {c : Char} (h : IsAscii c) : foldLetter c = lowerAscii c := by
  unfold foldLetter
  split
  · next hkelvin =>
    subst hkelvin
    exact absurd h (by decide)
  · rfl

theorem foldLetter_of_not_isAscii {c : Char} (h : ¬ IsAscii c) (hkelvin : c ≠ kelvinSign) :
    foldLetter c = c := by
  rw [foldLetter, if_neg hkelvin, lowerAscii_of_not_isAscii h]

/-- The table of capitals, but for the Kelvin sign, leads to letters outside ASCII. -/
theorem CaseRange.table_beyond_ascii : ∀ r ∈ CaseRange.table,
    (r.first = 0x212a ∧ r.last = 0x212a) ∨
      (0x80 ≤ r.first + r.shift ∧ r.last + r.shift < 0xd800) ∨
      (0xe000 ≤ r.first + r.shift ∧ r.last + r.shift < 0x110000) := by
  decide +kernel

theorem CaseRange.not_isAscii {r : CaseRange} (hr : r ∈ table) {c : Char}
    (hc : r.contains c.toNat) (hkelvin : c ≠ kelvinSign) :
    ¬ IsAscii (Char.ofNat (c.toNat + r.shift).toNat) := by
  have hbounds : r.first ≤ c.toNat ∧ c.toNat ≤ r.last := by
    simp only [contains, Bool.and_eq_true, decide_eq_true_eq] at hc
    exact hc.1
  have hvalid : (c.toNat + r.shift).toNat.isValidChar ∧ 0x80 ≤ (c.toNat + r.shift).toNat := by
    rcases table_beyond_ascii r hr with ⟨hfirst, hlast⟩ | h | h
    · refine absurd (Char.toNat_inj.1 ?_) hkelvin
      have hsign : kelvinSign.toNat = 0x212a := by decide
      omega
    · refine ⟨.inl ?_, ?_⟩ <;> omega
    · refine ⟨.inr ?_, ?_⟩ <;> omega
  have hnat : (Char.ofNat (c.toNat + r.shift).toNat).toNat = (c.toNat + r.shift).toNat := by
    rw [Char.ofNat, dif_pos hvalid.1]
    rfl
  rw [IsAscii, hnat]
  omega

theorem lowerBetween_fold {c : Char} (h : IsAscii c ∨ c = kelvinSign) (before after : List Char) :
    lowerBetween before c after = [foldLetter c] := by
  have hsigma : c ≠ capitalSigma := by
    rintro rfl
    revert h
    decide
  rw [lowerBetween_of_ne hsigma]
  rcases h with h | rfl
  · rw [foldLetter_of_isAscii h]
    exact if_pos h
  · decide

/-- The lowercase of any other letter does not lie in ASCII as a whole. -/
theorem exists_lowerBetween_not_isAscii {c : Char} (h : ¬ IsAscii c) (hkelvin : c ≠ kelvinSign)
    (before after : List Char) : ∃ d ∈ lowerBetween before c after, ¬ IsAscii d := by
  unfold lowerBetween
  split
  · exact ⟨finalSigma, List.mem_singleton.2 rfl, by decide⟩
  · rw [lowerChar, if_neg (show ¬ c.toNat < 0x80 from h)]
    split
    · exact ⟨Char.ofNat 0x307, by simp, by decide⟩
    · split
      · next r hr =>
        have hcontains : r.contains c.toNat := by simpa using List.find?_some hr
        exact ⟨_, List.mem_singleton.2 rfl,
          CaseRange.not_isAscii (List.mem_of_find?_eq_some hr) hcontains hkelvin⟩
      · exact ⟨c, List.mem_singleton.2 rfl, h⟩

theorem lowerAfter_eq_iff (before text : List Char) {folded : List Char}
    (hfolded : ∀ c ∈ folded, IsAscii c) :
    lowerAfter before text = folded ↔ text.map foldLetter = folded := by
  induction text generalizing before folded with
  | nil => rfl
  | cons c text ih =>
    by_cases h : IsAscii c ∨ c = kelvinSign
    · rw [lowerAfter, lowerBetween_fold h, List.singleton_append, List.map_cons]
      cases folded with
      | nil => simp
      | cons d folded =>
        rw [List.cons.injEq, List.cons.injEq, ih (c :: before) (List.forall_mem_cons.1 hfolded).2]
    · obtain ⟨hascii, hkelvin⟩ := not_or.1 h
      constructor
      · rintro rfl
        obtain ⟨d, hd, hnot⟩ := exists_lowerBetween_not_isAscii hascii hkelvin before text
        exact absurd (hfolded d (List.mem_append_left _ hd)) hnot
      · rintro rfl
        rw [List.map_cons, foldLetter_of_not_isAscii hascii hkelvin] at hfolded
        exact absurd (hfolded c List.mem_cons_self) hascii

/-- A text whose lowercase is in ASCII is folded to it, and the other way round. -/
theorem lowercase_eq_iff {w : String} (hw : ∀ c ∈ w.toList, IsAscii c) (text : String) :
    lowercase text = w ↔ foldLetters text = w := by
  rw [← String.toList_inj, ← String.toList_inj, toList_lowercase, foldLetters, String.toList_map]
  exact lowerAfter_eq_iff [] text.toList hw

theorem map_foldLetter_eq_iff {folded : List Char} (hfolded : 'k' ∉ folded)
    (hascii : ∀ c ∈ folded, IsAscii c) (text : List Char) :
    text.map foldLetter = folded ↔ text.map lowerAscii = folded := by
  by_cases hkelvin : kelvinSign ∈ text
  · constructor
    · rintro rfl
      exact absurd (List.mem_map.2 ⟨kelvinSign, hkelvin, rfl⟩) hfolded
    · rintro rfl
      exact absurd (hascii _ (List.mem_map.2 ⟨kelvinSign, hkelvin, rfl⟩)) (by decide)
  · have hsame : text.map foldLetter = text.map lowerAscii := by
      apply List.map_congr_left
      rintro c hc
      refine if_neg ?_
      rintro rfl
      exact hkelvin hc
    rw [hsame]

def InAscii (w : String) : Prop := ∀ c ∈ w.toList, IsAscii c

-- By name, since there are only finitely many characters and a search may choose to try them all.
instance (w : String) : Decidable (InAscii w) :=
  List.decidableBAll _ _

structure InAsciiWithoutK (w : String) : Prop where
  inAscii : InAscii w
  no_k : 'k' ∉ w.toList

instance (w : String) : Decidable (InAsciiWithoutK w) :=
  decidable_of_iff (InAscii w ∧ 'k' ∉ w.toList) ⟨fun h => ⟨h.1, h.2⟩, fun h => ⟨h.1, h.2⟩⟩

theorem InAsciiWithoutK.lowercase_eq_iff {w : String} (h : InAsciiWithoutK w) (s : String) :
    lowercase s = w ↔ foldAscii s = w := by
  rw [StyleValue.lowercase_eq_iff h.inAscii, ← String.toList_inj, ← String.toList_inj,
    foldLetters, foldAscii, String.toList_map, String.toList_map]
  exact map_foldLetter_eq_iff h.no_k h.inAscii s.toList

end StyleValue
