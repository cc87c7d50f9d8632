import Mathlib.Data.List.TakeWhile
import StyleValue.Token.Name

/-!
# Where escapes and names end

A scanner reads a part of the text and looks at a little of what follows it. As long as what
follows does not go on with the same escape or name, the scanner stops at the same place with the
same value. So it does not matter what follows, if it is the end of the text or starts with a
character that continues no token.
-/

set_option autoImplicit false

namespace StyleValue

namespace Lexer

def continuing : List Char := ['\\', '(', '.', '+', '%', '=', '|', '>', '!', '*']

def isInert (c : Char) : Bool := !isIdent c && !isWhitespace c && !continuing.contains c

def Inert (text : List Char) : Prop := ∀ c ∈ text.head?, isInert c

theorem inert_nil : Inert [] := by simp [Inert]

theorem inert_cons (c : Char) (text : List Char) : Inert (c :: text) ↔ isInert c := by
  simp [Inert]

def EndsName (text : List Char) : Prop :=
  ∀ c ∈ text.head?, isIdent c = false ∧ isWhitespace c = false ∧ c ≠ '\\'

theorem Inert.endsName {text : List Char} (h : Inert text) : EndsName text := by
  intro c hc
  have := h c hc
  simp only [isInert, Bool.and_eq_true, Bool.not_eq_true'] at this
  refine ⟨this.1.1, this.1.2, ?_⟩
  rintro rfl
  simp [continuing] at this

theorem isIdent_of_isHexDigit {c : Char} (h : isHexDigit c) : isIdent c := by
  simp only [isHexDigit, isIdent, Ordinal.isHexDigit, Ordinal.isIdent, Ordinal.isIdentStart,
    Ordinal.isDigit, Bool.or_eq_true, Bool.and_eq_true, decide_eq_true_eq] at h ⊢
  omega

theorem isHexDigit_whitespace {c : Char} (h : isWhitespace c) : isHexDigit c = false := by
  by_contra hhex
  have hx : isHexDigit c = true := by simpa using hhex
  simp only [isHexDigit, isWhitespace, Ordinal.isHexDigit, Ordinal.isWhitespace,
    Ordinal.isNewline, Ordinal.isDigit, Bool.or_eq_true, Bool.and_eq_true, decide_eq_true_eq,
    beq_iff_eq] at h hx
  omega

theorem takeWhile_append_boundary {p : Char → Bool} {body rest : List Char}
    (hbody : ∀ c ∈ body, p c) (hrest : ∀ c ∈ rest.head?, p c = false) :
    (body ++ rest).takeWhile p = body := by
  rw [List.takeWhile_append_of_pos hbody]
  cases rest with
  | nil => simp
  | cons c rest => simp [hrest c (by simp)]

theorem dropWhile_append_boundary {p : Char → Bool} {body rest : List Char}
    (hbody : ∀ c ∈ body, p c) (hrest : ∀ c ∈ rest.head?, p c = false) :
    (body ++ rest).dropWhile p = rest := by
  rw [List.dropWhile_append_of_pos hbody]
  cases rest with
  | nil => rfl
  | cons c rest => simp [hrest c (by simp)]

theorem head?_dropWhile (p : Char → Bool) (text : List Char) :
    ∀ c ∈ (text.dropWhile p).head?, p c = false := by
  intro c hc
  have h := List.head?_dropWhile_not p text
  rw [hc] at h
  simpa using h

theorem exists_run (p : Char → Bool) (text : List Char) :
    ∃ run, text = run ++ text.dropWhile p ∧ (∀ c ∈ run, p c) ∧
      ∀ c ∈ (text.dropWhile p).head?, p c = false :=
  ⟨text.takeWhile p, List.takeWhile_append_dropWhile.symm,
    fun _ hc => List.mem_takeWhile_imp hc, head?_dropWhile p text⟩

theorem head?_front {text front rest : List Char} (h : text = front ++ rest) (hne : front ≠ [])
    (y : List Char) : (front ++ y).head? = text.head? := by
  obtain ⟨c, front, rfl⟩ := List.exists_cons_of_ne_nil hne
  rw [h]
  rfl

def EndsEscape (text : List Char) : Prop :=
  ∀ c ∈ text.head?, isHexDigit c = false ∧ isWhitespace c = false

theorem EndsName.endsEscape {text : List Char} (h : EndsName text) : EndsEscape text := by
  intro c hc
  obtain ⟨hident, hspace, -⟩ := h c hc
  refine ⟨?_, hspace⟩
  by_contra hhex
  simp [isIdent_of_isHexDigit (by simpa using hhex)] at hident

theorem dropSpace_eq_self {text : List Char} (h : ∀ c ∈ text.head?, isWhitespace c = false) :
    dropSpace text = text := by
  cases text with
  | nil => rfl
  | cons c text => simp [dropSpace, h c (by simp)]

theorem escape_digits (digits text : List Char) (hall : ∀ c ∈ digits, isHexDigit c)
    (hne : digits ≠ []) (hmost : digits.length ≤ 6)
    (hstop : digits.length = 6 ∨ ∀ c ∈ text.head?, isHexDigit c = false) :
    escape (digits ++ text) = ⟨charOfOrdinal (ofHexDigits digits), dropSpace text, []⟩ := by
  have htake : ((digits ++ text).takeWhile isHexDigit).take 6 = digits := by
    rcases hstop with hsix | hstop
    · rw [List.takeWhile_append_of_pos hall, ← hsix, List.take_left]
    · rw [takeWhile_append_boundary hall hstop, List.take_of_length_le hmost]
  obtain ⟨c, others, rfl⟩ := List.exists_cons_of_ne_nil hne
  have hc : isHexDigit c := hall c (by simp)
  rw [List.cons_append] at htake ⊢
  rw [escape]
  simp only [htake, hc, if_true]
  rw [← List.cons_append, List.drop_left]

theorem exists_escape_digits {c : Char} (rest : List Char) (hc : isHexDigit c) :
    ∃ digits text, c :: rest = digits ++ text ∧ (∀ d ∈ digits, isHexDigit d) ∧ digits ≠ [] ∧
      digits.length ≤ 6 ∧ (digits.length = 6 ∨ ∀ d ∈ text.head?, isHexDigit d = false) := by
  obtain ⟨run, hsplit, hrun, hstop⟩ := exists_run isHexDigit (c :: rest)
  have hne : run ≠ [] := by
    rintro rfl
    have := hstop c (by rw [← List.nil_append (List.dropWhile _ _), ← hsplit]; rfl)
    simp [hc] at this
  refine ⟨run.take 6, run.drop 6 ++ (c :: rest).dropWhile isHexDigit, ?_,
    fun d hd => hrun d (List.mem_of_mem_take hd), by simpa using hne,
    List.length_take_le 6 run, ?_⟩
  · rw [← List.append_assoc, List.take_append_drop]
    exact hsplit
  · by_cases hsix : 6 ≤ run.length
    · left
      rw [List.length_take]
      omega
    · right
      rw [List.drop_eq_nil_of_le (by omega), List.nil_append]
      exact hstop

/-- An escape takes the same characters whatever follows it, if that does not go on with it or
starts as what followed it before. -/
theorem escape_boundary (text : List Char) (hne : text ≠ []) :
    ∃ p, p ≠ [] ∧ text = p ++ (escape text).rest ∧ ∀ y,
      (EndsEscape y ∨ y.head? = (escape text).rest.head?) →
        escape (p ++ y) = ⟨(escape text).value, y, (escape text).reports⟩ := by
  obtain ⟨c, rest, rfl⟩ := List.exists_cons_of_ne_nil hne
  by_cases hc : isHexDigit c
  · obtain ⟨digits, text, hsplit, hall, hdigits, hmost, hstop⟩ := exists_escape_digits rest hc
    rw [hsplit, escape_digits digits text hall hdigits hmost hstop]
    by_cases hspace : text.head?.any isWhitespace
    · -- The space that ends the digits belongs to the escape.
      obtain ⟨w, hw, hwspace⟩ := (Option.any_eq_true _ _).mp hspace
      obtain ⟨others, rfl⟩ := List.head?_eq_some_iff.mp hw
      have hdrop (y : List Char) : dropSpace (w :: y) = y := by simp [dropSpace, hwspace]
      refine ⟨digits ++ [w], by simp, by simp [hdrop], ?_⟩
      intro y _
      rw [List.append_assoc, List.singleton_append,
        escape_digits digits (w :: y) hall hdigits hmost (by simp [isHexDigit_whitespace hwspace]),
        hdrop]
    · have hends : ∀ c ∈ text.head?, isWhitespace c = false := by
        intro c hc
        rw [hc] at hspace
        simpa using hspace
      rw [dropSpace_eq_self hends]
      refine ⟨digits, hdigits, rfl, ?_⟩
      rintro y (hy | hy)
      · rw [escape_digits digits y hall hdigits hmost (.inr fun c hc => (hy c hc).1),
          dropSpace_eq_self fun c hc => (hy c hc).2]
      · rw [escape_digits digits y hall hdigits hmost (by rwa [hy]),
          dropSpace_eq_self (by rwa [hy])]
  · refine ⟨[c], by simp, ?_⟩
    have hescape (y : List Char) : escape (c :: y) = ⟨c, y, []⟩ := by simp [escape, hc]
    rw [hescape]
    exact ⟨rfl, fun y _ => hescape y⟩

/-- An escape and what is scanned after it, of which nothing or at least its first character
stays. -/
theorem escape_then (text : List Char) (hne : text ≠ []) {p rest : List Char}
    (hrest : (escape text).rest = p ++ rest) :
    ∃ front, front ≠ [] ∧ text = front ++ (p ++ rest) ∧ ∀ y,
      (p ≠ [] ∨ EndsEscape y ∨ y.head? = rest.head?) →
        escape (front ++ (p ++ y)) = ⟨(escape text).value, p ++ y, (escape text).reports⟩ := by
  obtain ⟨front, hfront, hsplit, hescape⟩ := escape_boundary text hne
  rw [hrest] at hsplit hescape
  refine ⟨front, hfront, hsplit, ?_⟩
  intro y hy
  apply hescape
  by_cases hp : p = []
  · subst hp
    simpa using hy
  · exact .inr (head?_front rfl hp y)

theorem startsEscape_cons (c : Char) (rest : List Char) :
    startsEscape (c :: rest) = (c == '\\' && !rest.head?.any isNewline) := by
  by_cases h : c = '\\'
  · subst h
    rfl
  · have hb : (c == '\\') = false := by simpa using h
    rw [hb, Bool.false_and]
    unfold startsEscape
    split
    · rename_i heq
      exact absurd (List.cons.inj heq).1 h
    · rfl

theorem startsName_cons {c : Char} (rest : List Char) (h : c ≠ '-') :
    startsName (c :: rest) = (isIdentStart c || startsEscape (c :: rest)) := by
  unfold startsName
  split
  · rename_i heq
    exact absurd (List.cons.inj heq).1 h
  · rename_i heq
    obtain ⟨rfl, rfl⟩ := List.cons.inj heq
    rfl
  · rename_i heq
    cases heq

theorem isIdent_of_isIdentStart {c : Char} (h : isIdentStart c) : isIdent c := by
  simp only [isIdentStart, isIdent, Ordinal.isIdent] at h ⊢
  simp [h]

theorem name_ident {c : Char} (rest : List Char) (h : isIdent c) :
    name (c :: rest) = (name rest).map (c :: ·) := by
  rw [name, if_pos h]

theorem name_escape (rest : List Char) (h : startsEscape ('\\' :: rest)) :
    name ('\\' :: rest) =
      ((name (escape rest).rest).map ((escape rest).value :: ·)).after (escape rest).reports := by
  rw [name, if_neg (by decide), if_pos h]

theorem name_stop {text : List Char} (h : EndsName text) : name text = ⟨[], text, []⟩ := by
  cases text with
  | nil => rw [name]
  | cons c rest =>
    obtain ⟨hident, -, hslash⟩ := h c (by simp)
    have he : startsEscape (c :: rest) = false := by simp [startsEscape_cons, hslash]
    rw [name, if_neg (by simp [hident]), if_neg (by simp [he])]

/-- Letters of a name are all of it before text that ends names. -/
theorem name_letters (letters rest : List Char) (h : letters.all isIdent)
    (hrest : EndsName rest) : name (letters ++ rest) = ⟨letters, rest, []⟩ := by
  induction letters with
  | nil => exact name_stop hrest
  | cons c letters ih =>
    simp only [List.all_cons, Bool.and_eq_true] at h
    rw [List.cons_append, name_ident _ h.1, ih h.2]
    rfl

structure SameStart (s t : List Char) : Prop where
  ident : s.head?.filter isIdent = t.head?.filter isIdent
  escape : startsEscape s = startsEscape t
  name : startsName s = startsName t

theorem SameStart.any {s t : List Char} (h : SameStart s t) (part : Char → Bool)
    (hpart : ∀ c, part c → isIdent c) : s.head?.any part = t.head?.any part := by
  have hfilter (u : List Char) : u.head?.any part = (u.head?.filter isIdent).any part := by
    cases u with
    | nil => rfl
    | cons c u =>
      by_cases hc : part c
      · simp [Option.filter, hc, hpart c hc]
      · by_cases hi : isIdent c <;> simp [Option.filter, hc, hi]
  rw [hfilter s, hfilter t, h.ident]

theorem startsName_of_not_ident {c : Char} {rest : List Char} (hc : isIdent c = false)
    (he : startsEscape (c :: rest) = false) : startsName (c :: rest) = false := by
  have hstart : isIdentStart c = false := by
    by_contra hstart
    simp [isIdent_of_isIdentStart (by simpa using hstart)] at hc
  have hdash : c ≠ '-' := by
    rintro rfl
    revert hc
    decide
  rw [startsName_cons rest hdash, hstart, he]
  rfl

theorem EndsName.startsName {text : List Char} (h : EndsName text) :
    text.head?.filter isIdent = none ∧ startsEscape text = false ∧ startsName text = false := by
  cases text with
  | nil => exact ⟨rfl, rfl, rfl⟩
  | cons c rest =>
    obtain ⟨hident, -, hslash⟩ := h c (by simp)
    have hescape : startsEscape (c :: rest) = false := by simp [startsEscape_cons, hslash]
    exact ⟨by simp [Option.filter, hident], hescape, startsName_of_not_ident hident hescape⟩

theorem sameStart_ident {c : Char} {s t : List Char} (hc : isIdent c) (h : SameStart s t) :
    SameStart (c :: s) (c :: t) := by
  have hslash : c ≠ '\\' := by
    rintro rfl
    revert hc
    decide
  have hescape (u : List Char) : startsEscape (c :: u) = false := by
    simp [startsEscape_cons, hslash]
  refine ⟨rfl, by rw [hescape, hescape], ?_⟩
  by_cases hdash : c = '-'
  · subst hdash
    have hany := h.any (fun c => isIdentStart c || c == '-') (by
      intro c hc
      rcases Bool.or_eq_true_iff.mp hc with hc | hc
      · exact isIdent_of_isIdentStart hc
      · obtain rfl := beq_iff_eq.mp hc
        decide)
    simp only [startsName, hany, h.escape]
  · rw [startsName_cons s hdash, startsName_cons t hdash, hescape, hescape]

/-- A name ends at the same place before anything that cannot be part of it. If the text ends with
the name, it must not be in the middle of an escape, which is reported. -/
theorem name_boundary (text : List Char)
    (h : (name text).rest = [] → (name text).reports = []) :
    ∃ p, text = p ++ (name text).rest ∧ ∀ y, EndsName y →
      name (p ++ y) = ⟨(name text).value, y, (name text).reports⟩ ∧ SameStart (p ++ y) text := by
  fun_induction name text with
  | case1 =>
    refine ⟨[], rfl, ?_⟩
    intro y hy
    obtain ⟨hident, hescape, hname⟩ := hy.startsName
    exact ⟨name_stop hy, hident, hescape, hname⟩
  | case2 c rest hc ih =>
    obtain ⟨p, hsplit, hstays⟩ := ih h
    refine ⟨c :: p, congrArg (c :: ·) hsplit, ?_⟩
    intro y hy
    obtain ⟨hname, hstart⟩ := hstays y hy
    refine ⟨?_, sameStart_ident hc hstart⟩
    rw [List.cons_append, name_ident _ hc, hname]
    rfl
  | case3 c rest hc he escaped ih =>
    obtain rfl : c = '\\' := by
      rw [startsEscape_cons] at he
      simpa using (Bool.and_eq_true_iff.mp he).1
    have hrest : rest ≠ [] := by
      rintro rfl
      simp [escaped, escape, name] at h
    obtain ⟨p, hsplit, hstays⟩ := ih fun hr => (List.append_eq_nil_iff.mp (h hr)).2
    obtain ⟨front, hfront, hcut, hescape⟩ := escape_then rest hrest hsplit
    have hstarts (y : List Char) : startsEscape ('\\' :: (front ++ y)) = true := by
      rw [startsEscape_cons, head?_front hcut hfront, ← startsEscape_cons, he]
    refine ⟨'\\' :: (front ++ p), ?_, ?_⟩
    · rw [List.cons_append, List.append_assoc]
      exact congrArg ('\\' :: ·) hcut
    · intro y hy
      obtain ⟨hname, -⟩ := hstays y hy
      rw [List.cons_append, List.append_assoc, name_escape _ (hstarts _),
        hescape y (.inr (.inl hy.endsEscape)), hname]
      refine ⟨rfl, rfl, by rw [hstarts, he], ?_⟩
      rw [startsName_cons _ (by decide), startsName_cons _ (by decide), hstarts, he]
  | case4 c rest hc he =>
    have hident : isIdent c = false := by simpa using hc
    have hescape : startsEscape (c :: rest) = false := by simpa using he
    refine ⟨[], rfl, ?_⟩
    intro y hy
    obtain ⟨hfilter, hstarts, hname⟩ := hy.startsName
    refine ⟨name_stop hy, ?_, by rw [List.nil_append, hstarts, hescape], ?_⟩
    · rw [List.nil_append, hfilter]
      simp [Option.filter, hident]
    · rw [List.nil_append, hname, startsName_of_not_ident hident hescape]

end Lexer

end StyleValue
