/-!
# Reading with lookahead

A reader over a source that gives its items once. Peeking draws from the source only what the
buffer lacks, and what was read can be put back. To its user the reader is the list of items still
to come, `contents`.
-/

set_option autoImplicit false

namespace StyleValue

variable {α : Type}

/-- Draws items from a source, one after the other, until there are so many of them. A number that
is not positive is never reached, so that all of the source is drawn. -/
def drawItems : List α → Int → List α × List α
  | [], _ => ([], [])
  | item :: items, count =>
    if count = 1 then ([item], items)
    else
      let (drawn, rest) := drawItems items (count - 1)
      (item :: drawn, rest)

theorem drawItems_of_pos (items : List α) {count : Int} (h : 0 < count) :
    drawItems items count = (items.take count.toNat, items.drop count.toNat) := by
  induction items generalizing count with
  | nil => simp [drawItems]
  | cons item items ih =>
    by_cases hone : count = 1
    · subst hone
      simp [drawItems]
    · have hmore : 0 < count - 1 := by omega
      have htoNat : count.toNat = (count - 1).toNat + 1 := by omega
      rw [drawItems, if_neg hone, ih hmore, htoNat, List.take_succ_cons, List.drop_succ_cons]

structure Lookahead (α : Type) where
  buffer : List α
  source : List α

namespace Lookahead

def ofList (items : List α) : Lookahead α := ⟨[], items⟩

def contents (r : Lookahead α) : List α := r.buffer ++ r.source

def fill (r : Lookahead α) (count : Int) : Lookahead α :=
  let missing := count - r.buffer.length
  if 0 < missing then
    let (drawn, rest) := drawItems r.source missing
    ⟨r.buffer ++ drawn, rest⟩
  else r

def peek (r : Lookahead α) (count : Int) : Option (List α) × Lookahead α :=
  if count < 0 then (none, r)
  else
    let filled := r.fill count
    (some (filled.buffer.take count.toNat), filled)

def read (r : Lookahead α) (count : Int) : Option (List α) × Lookahead α :=
  match r.peek count with
  | (none, r) => (none, r)
  | (some items, filled) => (some items, { filled with buffer := filled.buffer.drop count.toNat })

def unread (r : Lookahead α) (items : List α) : Lookahead α :=
  { r with buffer := items ++ r.buffer }

@[simp] theorem contents_ofList (items : List α) : (ofList items).contents = items := rfl

theorem fill_eq (r : Lookahead α) (count : Int) :
    r.fill count = ⟨r.buffer ++ r.source.take (count.toNat - r.buffer.length),
      r.source.drop (count.toNat - r.buffer.length)⟩ := by
  by_cases hmissing : 0 < count - r.buffer.length
  · have htoNat : (count - r.buffer.length).toNat = count.toNat - r.buffer.length := by omega
    rw [fill, if_pos hmissing, drawItems_of_pos _ hmissing, htoNat]
  · have hnone : count.toNat - r.buffer.length = 0 := by omega
    rw [fill, if_neg hmissing, hnone, List.take_zero, List.append_nil, List.drop_zero]

@[simp] theorem contents_fill (r : Lookahead α) (count : Int) :
    (r.fill count).contents = r.contents := by
  simp [fill_eq, contents]

@[simp] theorem contents_unread (r : Lookahead α) (items : List α) :
    (r.unread items).contents = items ++ r.contents := by
  simp [unread, contents]

end Lookahead

end StyleValue
