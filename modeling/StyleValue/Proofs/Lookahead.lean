import StyleValue.Lookahead

/-!
# A reader with lookahead is a list

To whoever peeks, reads and puts back, in any order, a reader behaves like the list of the items
still to come, although these are partly in its buffer and partly not drawn from its source yet. A
request draws what the buffer lacks of the items asked for, and nothing if it lacks none, so that
the source is never asked for a number of items that stands for all of them.
-/

set_option autoImplicit false

namespace StyleValue

namespace Lookahead

variable {α : Type}

inductive Request (α : Type)
  | peek (count : Int)
  | read (count : Int)
  | unread (items : List α)

inductive Reply (α : Type)
  | items (found : List α)
  | refused
  | done
deriving DecidableEq

def Reply.ofFound? : Option (List α) → Reply α
  | some found => .items found
  | none => .refused

def run {σ : Type} (serve : Request α → σ → Reply α × σ) (s : σ) :
    List (Request α) → List (Reply α) × σ
  | [] => ([], s)
  | request :: requests =>
    let (reply, next) := serve request s
    let (replies, last) := run serve next requests
    (reply :: replies, last)

namespace Request

def onReader : Request α → Lookahead α → Reply α × Lookahead α
  | .peek count, r => (.ofFound? (r.peek count).1, (r.peek count).2)
  | .read count, r => (.ofFound? (r.read count).1, (r.read count).2)
  | .unread items, r => (.done, r.unread items)

def onList : Request α → List α → Reply α × List α
  | .peek count, items =>
    if count < 0 then (.refused, items) else (.items (items.take count.toNat), items)
  | .read count, items =>
    if count < 0 then (.refused, items)
    else (.items (items.take count.toNat), items.drop count.toNat)
  | .unread front, items => (.done, front ++ items)

def needed : Request α → Nat
  | .peek count => count.toNat
  | .read count => count.toNat
  | .unread _ => 0

end Request

variable (r : Lookahead α) (count : Int)

/-- Filling goes on until the items asked for are there, or else the source ends. -/
theorem enough_of_fill :
    count.toNat ≤ (r.fill count).buffer.length ∨ (r.fill count).source = [] := by
  rw [fill_eq, List.length_append, List.length_take, List.drop_eq_nil_iff]
  omega

theorem take_buffer_fill :
    (r.fill count).buffer.take count.toNat = r.contents.take count.toNat := by
  rw [← contents_fill r count, contents]
  obtain hbuffer | hsource := enough_of_fill r count
  · rw [List.take_append_of_le_length hbuffer]
  · rw [hsource, List.append_nil]

theorem drop_buffer_fill : (r.fill count).buffer.drop count.toNat ++ (r.fill count).source =
    r.contents.drop count.toNat := by
  rw [← contents_fill r count, contents]
  obtain hbuffer | hsource := enough_of_fill r count
  · rw [List.drop_append_of_le_length hbuffer]
  · rw [hsource, List.append_nil, List.append_nil]

theorem fill_of_neg (h : count < 0) : r.fill count = r := by
  have hmissing : ¬ 0 < count - r.buffer.length := by omega
  exact if_neg hmissing

theorem peek_eq : r.peek count =
    if count < 0 then (none, r) else (some (r.contents.take count.toNat), r.fill count) := by
  rw [← take_buffer_fill]
  rfl

theorem read_eq : r.read count =
    if count < 0 then (none, r)
    else (some (r.contents.take count.toNat),
      { r.fill count with buffer := (r.fill count).buffer.drop count.toNat }) := by
  rw [read, peek_eq]
  by_cases hneg : count < 0
  · rw [if_pos hneg, if_pos hneg]
  · rw [if_neg hneg, if_neg hneg]

theorem source_peek : (r.peek count).2.source = (r.fill count).source := by
  rw [peek_eq]
  split
  · next hneg => rw [fill_of_neg r count hneg]
  · rfl

theorem source_read : (r.read count).2.source = (r.peek count).2.source := by
  rw [read]
  obtain ⟨found | found, after⟩ := r.peek count <;> rfl

theorem contents_unread_read (count : Nat) :
    (r.read count).1.map (fun found => ((r.read count).2.unread found).contents) =
      some r.contents := by
  have hread := read_eq r count
  rw [if_neg (Int.not_lt.2 (Int.natCast_nonneg count))] at hread
  rw [hread, Option.map_some, contents_unread]
  have hrest : (r.read count).2.contents = r.contents.drop (count : Int).toNat := by
    rw [hread]
    exact drop_buffer_fill r count
  rw [← hread, hrest, List.take_append_drop]

namespace Request

/-- A request to a reader is served as one to the list of the items still to come. -/
theorem onReader_eq_onList (request : Request α) :
    (request.onReader r).map id contents = request.onList r.contents := by
  cases request with
  | peek count =>
    rw [onReader, onList, peek_eq]
    split
    · rfl
    · exact Prod.ext rfl (contents_fill r count)
  | read count =>
    rw [onReader, onList, read_eq]
    split
    · rfl
    · exact Prod.ext rfl (drop_buffer_fill r count)
  | unread items => exact Prod.ext rfl (contents_unread r items)

theorem source_onReader (request : Request α) :
    (request.onReader r).2.source = r.source.drop (request.needed - r.buffer.length) := by
  cases request with
  | peek count => rw [onReader, source_peek, fill_eq, needed]
  | read count => rw [onReader, source_read, source_peek, fill_eq, needed]
  | unread items =>
    rw [needed, Nat.zero_sub, List.drop_zero]
    rfl

end Request

/-- What a reader makes of requests is what its contents make of them. -/
theorem run_onReader (requests : List (Request α)) :
    (run Request.onReader r requests).map id contents =
      run Request.onList r.contents requests := by
  induction requests generalizing r with
  | nil => rfl
  | cons request requests ih =>
    rw [run, run, ← Request.onReader_eq_onList r request]
    exact congrArg (fun last => ((request.onReader r).1 :: last.1, last.2))
      (ih (request.onReader r).2)

/-- Nothing is put into the source, and only from its front something is drawn. -/
theorem source_run_suffix (requests : List (Request α)) :
    (run Request.onReader r requests).2.source <:+ r.source := by
  induction requests generalizing r with
  | nil => exact List.suffix_refl _
  | cons request requests ih =>
    refine (ih (request.onReader r).2).trans ?_
    rw [Request.source_onReader]
    exact List.drop_suffix _ _

/-- After any requests, a reader over some items has replied what the list of them replies, and its
contents are what is left of that list, with items that were put back in front. What was just read
can be put back. From the source, which is an end of the items, the next request draws as many items
as the buffer lacks of those that it needs. -/
theorem run_refines_list (items : List α) (requests : List (Request α)) :
    let reader := (run Request.onReader (ofList items) requests).2
    (run Request.onReader (ofList items) requests).map id contents =
      run Request.onList items requests ∧
    (∀ count : Nat,
      (reader.read count).1.map (fun found => ((reader.read count).2.unread found).contents) =
        some reader.contents) ∧
    reader.source <:+ items ∧
    ∀ request : Request α, (request.onReader reader).2.source =
      reader.source.drop (request.needed - reader.buffer.length) := by
  intro reader
  exact ⟨run_onReader (ofList items) requests, contents_unread_read reader,
    source_run_suffix (ofList items) requests, Request.source_onReader reader⟩

example :
    (run Request.onReader (ofList [1, 2, 3]) [.read 2, .unread [7, 2], .peek (-1), .read 9]).1 =
      [.items [1, 2], .done, .refused, .items [7, 2, 3]] := by decide

end Lookahead

end StyleValue
