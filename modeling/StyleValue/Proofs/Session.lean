import Mathlib.Data.List.Nodup
import StyleValue.Proofs.Outcome
import StyleValue.Session

/-!
# Caches over a session

A cache holds each URL registered with it once, in the order in which the URLs were first
registered. Registering keeps that up, so it holds after any sequence of operations, of which each
adds its own registrations to the cache of its context and to no other.
-/

set_option autoImplicit false

namespace StyleValue

structure ImageCache.Records (c : ImageCache) (calls : List String) : Prop where
  nodup : c.urls.Nodup
  mem_iff : ∀ url, url ∈ c.urls ↔ url ∈ calls
  ordered : c.urls.Pairwise fun u v => calls.idxOf u < calls.idxOf v

namespace ImageCache

variable {c : ImageCache} {calls : List String}

theorem records_empty : Records {} [] := ⟨List.nodup_nil, fun _ => Iff.rfl, List.Pairwise.nil⟩

theorem idxOf_append_lt {u v : String} (hu : u ∈ calls) (hv : v ∈ calls)
    (h : calls.idxOf u < calls.idxOf v) (added : List String) :
    (calls ++ added).idxOf u < (calls ++ added).idxOf v := by
  rwa [List.idxOf_append_of_mem hu, List.idxOf_append_of_mem hv]

theorem idxOf_append_lt_of_notMem {u v : String} (hu : u ∈ calls) (hv : v ∉ calls)
    (added : List String) : (calls ++ added).idxOf u < (calls ++ added).idxOf v := by
  rw [List.idxOf_append_of_mem hu, List.idxOf_append_of_notMem hv]
  exact Nat.lt_of_lt_of_le (List.idxOf_lt_length_of_mem hu) (Nat.le_add_right _ _)

theorem Records.add (h : c.Records calls) (url : String) :
    (c.add url).Records (calls ++ [url]) := by
  have hordered : c.urls.Pairwise fun u v =>
      (calls ++ [url]).idxOf u < (calls ++ [url]).idxOf v :=
    h.ordered.imp_of_mem fun hu hv hlt =>
      idxOf_append_lt ((h.mem_iff _).1 hu) ((h.mem_iff _).1 hv) hlt [url]
  by_cases hknown : url ∈ c.urls
  · have hadd : c.add url = c := if_pos (List.contains_iff_mem.2 hknown)
    rw [hadd]
    refine ⟨h.nodup, fun u => ?_, hordered⟩
    rw [h.mem_iff, List.mem_append, List.mem_singleton]
    constructor
    · exact .inl
    · rintro (hu | rfl)
      · exact hu
      · exact (h.mem_iff u).1 hknown
  · have hadd : c.add url = ⟨c.urls ++ [url]⟩ :=
      if_neg fun hmem => hknown (List.contains_iff_mem.1 hmem)
    rw [hadd]
    refine ⟨?_, fun u => ?_, ?_⟩
    · exact List.nodup_append.2 ⟨h.nodup, List.nodup_singleton url, fun u hu v hv huv =>
        hknown (List.mem_singleton.1 hv ▸ huv ▸ hu)⟩
    · rw [List.mem_append, List.mem_append, h.mem_iff]
    · refine List.pairwise_append.2 ⟨hordered, List.pairwise_singleton _ _, ?_⟩
      intro u hu v hv
      obtain rfl := List.mem_singleton.1 hv
      exact idxOf_append_lt_of_notMem ((h.mem_iff u).1 hu)
        (fun hv => hknown ((h.mem_iff v).2 hv)) [v]

theorem Records.addAll (h : c.Records calls) (urls : List String) :
    (c.addAll urls).Records (calls ++ urls) := by
  induction urls generalizing c calls with
  | nil => simpa [ImageCache.addAll] using h
  | cons url urls ih =>
    have hnext := ih (h.add url)
    rwa [List.append_assoc] at hnext

end ImageCache

namespace Session

theorem lookup_replace {α : Type} (entries : List (String × α)) (name other : String) (a : α) :
    (entries.map fun entry => if entry.1 == name then (name, a) else entry).lookup other =
      if other = name then (entries.lookup name).map fun _ => a else entries.lookup other := by
  induction entries with
  | nil => simp
  | cons entry entries ih =>
    rcases entry with ⟨key, b⟩
    by_cases hkey : key = name
    · subst hkey
      by_cases hother : other = key
      · simp [hother]
      · have hne : (other == key) = false := beq_false_of_ne hother
        simpa [List.lookup_cons, hother, hne] using ih
    · by_cases hother : other = name
      · subst hother
        have hne : (other == key) = false := beq_false_of_ne fun h => hkey h.symm
        simpa [List.lookup_cons, hkey, hne] using ih
      · rw [if_neg hother] at ih ⊢
        simp only [List.map_cons, beq_false_of_ne hkey, Bool.false_eq_true, if_false,
          List.lookup_cons, ih]

theorem lookup_eq_none_of_not_any {α : Type} {entries : List (String × α)} {name : String}
    (h : ¬ entries.any fun entry => entry.1 == name) : entries.lookup name = none := by
  refine List.lookup_eq_none_iff.2 fun entry hentry => ?_
  have hne : entry.1 ≠ name := fun heq => h (List.any_eq_true.2 ⟨entry, hentry, by simp [heq]⟩)
  simpa using fun heq => hne heq.symm

theorem cache_putCache (s : Session) (name other : String) (c : RecordedCache) :
    (s.putCache name c).cache other = if other = name then c else s.cache other := by
  unfold putCache
  split
  · next hany =>
    have hknown : (s.caches.lookup name).isSome := by
      obtain ⟨entry, hentry, hname⟩ := List.any_eq_true.1 hany
      exact List.lookup_isSome_iff.2 ⟨entry, hentry, beq_iff_eq.2 (beq_iff_eq.1 hname).symm⟩
    obtain ⟨d, hd⟩ := Option.isSome_iff_exists.1 hknown
    rw [cache, cache, lookup_replace, hd]
    split <;> rfl
  · next hany =>
    have hnone := lookup_eq_none_of_not_any hany
    rw [cache, cache, List.lookup_append]
    by_cases hother : other = name
    · subst hother
      simp [hnone]
    · have hne : (other == name) = false := beq_false_of_ne hother
      simp [List.lookup_cons, hne, hother]

theorem cache_register (s : Session) (name other : String) (urls : List String) :
    (s.register name urls).cache other =
      if other = name then (s.cache name).register urls else s.cache other :=
  cache_putCache s name other _

variable {α : Type}

def performAll (s : Session) (operations : List (Context × Outcome α)) : Session :=
  operations.foldl (fun s operation => (s.perform operation.1 operation.2).2) s

def registeredWith (name : String) (operations : List (Context × Outcome α)) : List String :=
  operations.flatMap fun operation =>
    if operation.1.cache = name then operation.2.registered else []

def Records (s : Session) (name : String) (calls : List String) : Prop :=
  (s.cache name).calls = calls ∧ (s.cache name).cache.Records calls

theorem records_empty (name : String) : Records {} name [] := ⟨rfl, ImageCache.records_empty⟩

theorem Records.perform {s : Session} {name : String} {calls : List String}
    (h : s.Records name calls) (c : Context) (x : Outcome α) :
    (s.perform c x).2.Records name (calls ++ if c.cache = name then x.registered else []) := by
  obtain ⟨hcalls, himages⟩ := h
  unfold Records
  rw [Session.perform, cache_register]
  by_cases hname : c.cache = name
  · rw [if_pos hname.symm, if_pos hname, hname]
    exact ⟨congrArg (· ++ x.registered) hcalls, himages.addAll x.registered⟩
  · rw [if_neg (fun h => hname h.symm), if_neg hname, List.append_nil]
    exact ⟨hcalls, himages⟩

theorem Records.performAll {s : Session} {name : String} {calls : List String}
    (h : s.Records name calls) (operations : List (Context × Outcome α)) :
    (s.performAll operations).Records name (calls ++ registeredWith name operations) := by
  induction operations generalizing s calls with
  | nil => rwa [registeredWith, List.flatMap_nil, List.append_nil]
  | cons operation operations ih =>
    rw [registeredWith, List.flatMap_cons, ← List.append_assoc]
    exact ih (h.perform operation.1 operation.2)

end Session

end StyleValue
