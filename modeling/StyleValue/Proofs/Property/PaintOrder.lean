import Mathlib.Data.List.Nodup
import StyleValue.Proofs.Property.Keyword
import StyleValue.Proofs.Property.Lenient
import StyleValue.Proofs.Token.Procedure.Total

/-!
# The order of layers

`paint-order` orders the three layers: those named come first, each once and in the order in which
they are first mentioned, and the others follow in their own order. Only identifiers outside of
functions and blocks name a layer. The order depends on nothing else in the values, so what names no
layer, and what names one again, might as well be left out.
-/

set_option autoImplicit false

namespace StyleValue

/-- Where tokens are cut short, the text has an integer in it that is too large. -/
theorem oversize_of_lexText {text : String} {fault : Fault}
    (h : (lexText text).fault = some fault) : ∃ n p, Numeral.Spelling n p ∧ n.IsOversize ∧
      p <:+: (filterChunks [text]).map CodePoint.char := by
  obtain ⟨outcome, c, -, -, -, hends⟩ :=
    Procedure.tokenizes false { Cursor.start with ahead := filterChunks [text] }
  rw [show (lex false (filterChunks [text])).fault = some fault from h] at hends
  cases hends with
  | oversize spelling oversize within =>
    exact ⟨_, _, spelling, oversize,
      ((List.prefix_append _ _).isInfix.trans within.isInfix).map CodePoint.char⟩

/-- The tokens of a one and a million zeros, or more of them, are cut short. -/
theorem fault_of_zeros {n : ℕ} (h : 1000000 ≤ n) :
    (lexText (String.ofList ('1' :: List.replicate n '0'))).fault = some .overflow := by
  obtain ⟨c, hoverflow⟩ := Procedure.overflow_of_zeros false h
  obtain ⟨outcome, last, hon, -, -, hends⟩ := Procedure.tokenizes false
    { Cursor.start with ahead := filterChunks [String.ofList ('1' :: List.replicate n '0')] }
  obtain ⟨rfl, rfl⟩ := Prod.mk.inj (Option.some.inj
    ((hon.symm.trans (Procedure.on_tokenizeChunks false _).symm).trans hoverflow))
  show (lex false (filterChunks _)).fault = _
  generalize (lex false (filterChunks _)).fault = fault at hends ⊢
  cases hends
  rfl

namespace PaintLayer

def keyword : PaintLayer → String
  | .fill => "fill"
  | .stroke => "stroke"
  | .markers => "markers"

def Names (v : ComponentValue) (layer : PaintLayer) : Prop :=
  ∃ name source, v = .token ⟨.ident name, source⟩ ∧ foldLetters name = layer.keyword

def MentionedBefore (vs : List ComponentValue) (first second : PaintLayer) : Prop :=
  ∃ before v after, vs = before ++ v :: after ∧ Names v first ∧
    ∀ w ∈ before ++ [v], ¬ Names w second

/-- Values of which some are left out, behind others. Groups may also be exchanged for groups, and
what is left out names no layer or names it again. -/
inductive Thinned : List ComponentValue → List ComponentValue → List ComponentValue → Prop
  | nil (before : List ComponentValue) : Thinned before [] []
  | keep {before vs ws : List ComponentValue} (v : ComponentValue)
      (others : Thinned (before ++ [v]) vs ws) : Thinned before (v :: vs) (v :: ws)
  | exchange {before vs ws : List ComponentValue} {v w : ComponentValue} (group : v.kind? = none)
      (other : w.kind? = none) (others : Thinned before vs ws) :
      Thinned before (v :: vs) (w :: ws)
  | leave {before vs ws : List ComponentValue} {v : ComponentValue}
      (idle : ∀ layer, Names v layer → ∃ u ∈ before, Names u layer)
      (others : Thinned before vs ws) : Thinned before (v :: vs) ws

def named? (v : ComponentValue) : Option PaintLayer := v.keyword?.bind ofName?

theorem ofName?_eq_some_iff {w : String} {layer : PaintLayer} :
    ofName? w = some layer ↔ w = layer.keyword := by
  constructor
  · unfold ofName?
    split <;> rintro ⟨⟩ <;> rfl
  · rintro rfl
    cases layer <;> rfl

theorem named?_eq_some_iff {v : ComponentValue} {layer : PaintLayer} :
    named? v = some layer ↔ Names v layer := by
  constructor
  · intro h
    obtain ⟨w, hkeyword, hlayer⟩ := Option.bind_eq_some_iff.1 h
    unfold ComponentValue.keyword? at hkeyword
    split at hkeyword
    · next name source =>
      obtain rfl := Option.some.inj hkeyword
      rw [keywords.lookup_lowercase] at hlayer
      exact ⟨name, source, rfl, ofName?_eq_some_iff.1 hlayer⟩
    · cases hkeyword
  · rintro ⟨name, source, rfl, hname⟩
    show ofName? (lowercase name) = some layer
    rw [keywords.lookup_lowercase]
    exact ofName?_eq_some_iff.2 hname

theorem named?_of_group {v : ComponentValue} (h : v.kind? = none) : named? v = none := by
  cases v with
  | token t => cases h
  | function | block => rfl

section Insert

variable {layers : List PaintLayer} {layer l : PaintLayer}

theorem insert_of_mem (h : layer ∈ layers) : insert layers layer = layers := by
  simp [insert, h]

theorem insert_of_notMem (h : layer ∉ layers) : insert layers layer = layers ++ [layer] := by
  simp [insert, h]

theorem mem_insert : l ∈ insert layers layer ↔ l ∈ layers ∨ l = layer := by
  by_cases h : layer ∈ layers
  · rw [insert_of_mem h]
    constructor
    · exact .inl
    · rintro (hl | rfl)
      · exact hl
      · exact h
  · simp [insert_of_notMem h]

theorem nodup_insert (h : layers.Nodup) : (insert layers layer).Nodup := by
  by_cases hmem : layer ∈ layers
  · rwa [insert_of_mem hmem]
  · rw [insert_of_notMem hmem, ← List.concat_eq_append]
    exact h.concat hmem

/-- Of layers that do not repeat, those are added that are not there yet. -/
theorem foldl_insert {added : List PaintLayer} (h : added.Nodup) :
    added.foldl insert layers = layers ++ added.filter (· ∉ layers) := by
  induction added generalizing layers with
  | nil => simp
  | cons a added ih =>
    obtain ⟨hnew, hadded⟩ := List.nodup_cons.1 h
    rw [List.foldl_cons, ih hadded]
    by_cases hmem : a ∈ layers
    · simp [insert_of_mem hmem, hmem]
    · have hsame : added.filter (· ∉ layers ++ [a]) = added.filter (· ∉ layers) := by
        apply List.filter_congr
        intro b hb
        have hne : b ≠ a := fun hba => hnew (hba ▸ hb)
        simp [hne]
      rw [insert_of_notMem hmem, hsame, List.filter_cons_of_pos (by simpa using hmem),
        List.append_assoc, List.singleton_append]

end Insert

section Mention

variable {layers : List PaintLayer} {v : ComponentValue} {vs ws before : List ComponentValue}

def mention (layers : List PaintLayer) (v : ComponentValue) : List PaintLayer :=
  match named? v with
  | some layer => insert layers layer
  | none => layers

def named (vs : List ComponentValue) : List PaintLayer := vs.foldl mention []

theorem named_concat (vs : List ComponentValue) (v : ComponentValue) :
    named (vs ++ [v]) = mention (named vs) v := by
  rw [named, List.foldl_concat]
  rfl

theorem mem_mention {layer : PaintLayer} :
    layer ∈ mention layers v ↔ layer ∈ layers ∨ Names v layer := by
  rw [mention, ← named?_eq_some_iff]
  cases named? v with
  | none => simp
  | some l => simp [mem_insert, eq_comm]

theorem nodup_mention (h : layers.Nodup) : (mention layers v).Nodup := by
  unfold mention
  split
  · exact nodup_insert h
  · exact h

theorem mem_named {layer : PaintLayer} : layer ∈ named vs ↔ ∃ v ∈ vs, Names v layer := by
  induction vs using List.reverseRecOn with
  | nil => simp [named]
  | append_singleton vs v ih => simp [named_concat, mem_mention, ih, or_and_right, exists_or]

theorem nodup_named (vs : List ComponentValue) : (named vs).Nodup := by
  induction vs using List.reverseRecOn with
  | nil => exact List.nodup_nil
  | append_singleton vs v ih =>
    rw [named_concat]
    exact nodup_mention ih

theorem MentionedBefore.concat {first second : PaintLayer} (h : MentionedBefore vs first second)
    (v : ComponentValue) : MentionedBefore (vs ++ [v]) first second := by
  obtain ⟨before, u, after, rfl, hu, hbefore⟩ := h
  exact ⟨before, u, after ++ [v], by simp, hu, hbefore⟩

theorem mentionedBefore_new {first second : PaintLayer} (hfirst : first ∈ named vs)
    (hsecond : second ∉ named vs) : MentionedBefore vs first second := by
  rw [mem_named] at hfirst hsecond
  obtain ⟨u, hu, hnames⟩ := hfirst
  obtain ⟨before, after, rfl⟩ := List.append_of_mem hu
  refine ⟨before, u, after, rfl, hnames, fun w hw hother => hsecond ⟨w, ?_, hother⟩⟩
  rw [← List.singleton_append, ← List.append_assoc]
  exact List.mem_append_left after hw

theorem pairwise_named (vs : List ComponentValue) : (named vs).Pairwise (MentionedBefore vs) := by
  induction vs using List.reverseRecOn with
  | nil => exact List.Pairwise.nil
  | append_singleton vs v ih =>
    have hold : (named vs).Pairwise (MentionedBefore (vs ++ [v])) := ih.imp fun h => h.concat v
    rw [named_concat, mention]
    split
    · next layer hlayer =>
      by_cases hmem : layer ∈ named vs
      · rwa [insert_of_mem hmem]
      · rw [insert_of_notMem hmem, List.pairwise_append]
        refine ⟨hold, List.pairwise_singleton _ _, fun a ha b hb => ?_⟩
        obtain rfl := List.mem_singleton.1 hb
        exact (mentionedBefore_new ha hmem).concat v
    · exact hold

/-- What is left out names nothing that is not among the layers already. -/
theorem Thinned.foldl_mention (h : Thinned before vs ws)
    (hbefore : ∀ u ∈ before, ∀ layer, Names u layer → layer ∈ layers) :
    ws.foldl mention layers = vs.foldl mention layers := by
  induction h generalizing layers with
  | nil => rfl
  | keep v others ih =>
    refine ih fun u hu layer hlayer => mem_mention.2 ?_
    rcases List.mem_append.1 hu with hu | hu
    · exact .inl (hbefore u hu layer hlayer)
    · obtain rfl := List.mem_singleton.1 hu
      exact .inr hlayer
  | exchange group other others ih =>
    rw [List.foldl_cons, List.foldl_cons, mention, mention, named?_of_group group,
      named?_of_group other]
    exact ih hbefore
  | @leave before vs ws v idle others ih =>
    have hidle : mention layers v = layers := by
      unfold mention
      split
      · next layer hlayer =>
        obtain ⟨u, hu, hnames⟩ := idle layer (named?_eq_some_iff.1 hlayer)
        exact insert_of_mem (hbefore u hu layer hnames)
      · rfl
    rw [List.foldl_cons, hidle]
    exact ih hbefore

theorem Thinned.named_eq (h : Thinned [] vs ws) : named ws = named vs :=
  h.foldl_mention fun _ hu => absurd hu List.not_mem_nil

end Mention

def unnamed (vs : List ComponentValue) : List PaintLayer := all.filter (· ∉ named vs)

theorem nodup_all : all.Nodup := by decide

theorem mem_all (layer : PaintLayer) : layer ∈ all := by cases layer <;> decide

theorem ofValues_eq (vs : List ComponentValue) : ofValues vs = named vs ++ unnamed vs := by
  have hnamed : (vs.filterMap named?).foldl insert [] = named vs := by
    rw [List.foldl_filterMap, named]
    refine congrArg (vs.foldl · []) (funext₂ fun layers v => ?_)
    rw [mention]
    cases named? v <;> rfl
  rw [ofValues, List.foldl_append]
  exact (congrArg (all.foldl insert) hnamed).trans (foldl_insert nodup_all)

theorem ofValues_perm (vs : List ComponentValue) : (named vs ++ unnamed vs).Perm all := by
  have hnodup : (named vs ++ unnamed vs).Nodup := by
    refine (nodup_named vs).append (nodup_all.filter _) fun layer hnamed hunnamed => ?_
    exact of_decide_eq_true (List.mem_filter.1 hunnamed).2 hnamed
  refine (List.perm_ext_iff_of_nodup hnodup nodup_all).2 fun layer => ⟨fun _ => mem_all layer, ?_⟩
  intro _
  by_cases hmem : layer ∈ named vs
  · exact List.mem_append_left _ hmem
  · exact List.mem_append_right _ (List.mem_filter.2 ⟨mem_all layer, decide_eq_true hmem⟩)

theorem result_of_fault {text : String} {fault : Fault} (h : (lexText text).fault = some fault) :
    (Property.paintOrder.parse (some text)).result = .error (.fault .overflow) := by
  rw [Property.parse_of_fault .paintOrder (some text) h]

/-- The layers of a text: all three, led by those that its identifiers name, each once and in the
order in which they are first mentioned, and the others in their own order. Groups, repetitions and
whatever names no layer make no difference. Only a text with an integer that is too large to be read
has no layers. -/
theorem order_of_text (text : String) :
    (∀ fault, (lexText text).fault = some fault →
      (Property.paintOrder.parse (some text)).result = .error (.fault .overflow) ∧
      ∃ n p, Numeral.Spelling n p ∧ n.IsOversize ∧
        p <:+: (filterChunks [text]).map CodePoint.char) ∧
    ((lexText text).fault = none → ∃ vs first,
      (TokenStream.values.run (lexText text)).result = .ok vs ∧
      (Property.paintOrder.parse (some text)).result =
        .ok (.layers (first ++ all.filter (· ∉ first))) ∧
      (first ++ all.filter (· ∉ first)).Perm all ∧
      (∀ layer, layer ∈ first ↔ ∃ v ∈ vs, Names v layer) ∧
      first.Pairwise (MentionedBefore vs) ∧
      ∀ ws, Thinned [] vs ws →
        (Property.paintOrder.apply (.values ws)).result =
          (Property.paintOrder.parse (some text)).result) := by
  refine ⟨fun fault hfault => ⟨result_of_fault hfault, oversize_of_lexText hfault⟩,
    fun hfault => ?_⟩
  have hvalues := TokenStream.run_values (lexText text) hfault
  have hparse : (Property.paintOrder.parse (some text)).result =
      .ok (.layers (ofValues (Grouping.completed [] (lexText text).tokens))) := by
    rw [Property.result_parse_paintOrder, Property.ofTextValues, hfault]
  refine ⟨Grouping.completed [] (lexText text).tokens, named _, ?_, ?_, ofValues_perm _,
    fun layer => mem_named, pairwise_named _, fun ws hws => ?_⟩
  · rw [hvalues]
    rfl
  · rw [hparse, ofValues_eq]
    rfl
  · rw [hparse, ofValues_eq, unnamed, ← hws.named_eq]
    show Except.ok (PropertyValue.layers (ofValues ws)) = _
    rw [ofValues_eq]
    rfl

/-- Of a name in capitals, one in a function and one that was named before, the first does. -/
theorem order_of_text_stroke :
    let v : ComponentValue := .token ⟨.ident "STROKE", "STROKE"⟩
    let vs := [v, .function "f" "f(" [.token ⟨.ident "fill", "fill"⟩] ")",
      .token ⟨.ident "stroke", "stroke"⟩]
    (lexText "STROKE/**/f(fill)stroke").fault = none ∧
      (TokenStream.values.run (lexText "STROKE/**/f(fill)stroke")).result = .ok vs ∧
      Thinned [] vs [v] ∧
      (Property.paintOrder.apply (.values [v])).result =
        (Property.paintOrder.parse (some "STROKE/**/f(fill)stroke")).result := by
  intro v vs
  have hfault : (lexText "STROKE/**/f(fill)stroke").fault = none := by decide +kernel
  have hvalues : (TokenStream.values.run (lexText "STROKE/**/f(fill)stroke")).result = .ok vs := by
    decide +kernel
  have hfirst : Names v stroke := ⟨_, _, rfl, by decide +kernel⟩
  have hgroup (layer : PaintLayer) : ¬ Names vs[1] layer := by
    rintro ⟨_, _, heq, -⟩
    cases heq
  have hlast (layer : PaintLayer) (h : Names vs[2] layer) : layer = stroke := by
    have hnamed : named? vs[2] = some stroke := by decide +kernel
    rw [← named?_eq_some_iff, hnamed] at h
    exact (Option.some.inj h).symm
  have hthinned : Thinned [] vs [v] := by
    refine .keep v (.leave (fun layer h => absurd h (hgroup layer)) (.leave ?_ (.nil _)))
    intro layer h
    obtain rfl := hlast layer h
    exact ⟨v, by simp, hfirst⟩
  obtain ⟨ws, first, hrun, -, -, -, -, hsame⟩ := (order_of_text _).2 hfault
  obtain rfl : vs = ws := Except.ok.inj (hvalues.symm.trans hrun)
  exact ⟨hfault, hvalues, hthinned, hsame _ hthinned⟩

theorem no_order_of_zeros {n : ℕ} (h : 1000000 ≤ n) : (Property.paintOrder.parse
    (some (String.ofList ('1' :: List.replicate n '0')))).result = .error (.fault .overflow) :=
  result_of_fault (fault_of_zeros h)

/-- A one and a million zeros have no order. -/
theorem no_order_of_million_zeros : (Property.paintOrder.parse
    (some (String.ofList ('1' :: List.replicate 1000000 '0')))).result =
      .error (.fault .overflow) :=
  no_order_of_zeros le_rfl

end PaintLayer

end StyleValue
