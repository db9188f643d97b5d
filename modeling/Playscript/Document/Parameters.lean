import Playscript.Document.Value

/-!
# Parameters of a tag

Keys with their values, in the order in which the keys first came. A key occurs once.
-/

namespace Playscript

abbrev Entry := Text × Value

namespace Entry

def put (key : Text) (value : Value) : List Entry → List Entry
  | [] => [(key, value)]
  | (k, v) :: entries => if k = key then (k, value) :: entries else (k, v) :: put key value entries

theorem keys_put (key : Text) (value : Value) (entries : List Entry) :
    (put key value entries).map Prod.fst =
      if key ∈ entries.map Prod.fst then entries.map Prod.fst
      else entries.map Prod.fst ++ [key] := by
  induction entries with
  | nil => rfl
  | cons entry entries ih =>
    obtain ⟨k, v⟩ := entry
    by_cases h : k = key
    · simp [put, h]
    · by_cases hm : key ∈ entries.map Prod.fst <;> simp_all [put, eq_comm]

theorem nodup_keys_put {entries : List Entry} (h : (entries.map Prod.fst).Nodup) (key : Text)
    (value : Value) : ((put key value entries).map Prod.fst).Nodup := by
  rw [keys_put]
  split
  · exact h
  · next hm => exact List.nodup_append.2 ⟨h, by simp, by rintro a ha b hb rfl; simp_all⟩

theorem put_of_notMem {key : Text} {entries : List Entry} (h : key ∉ entries.map Prod.fst)
    (value : Value) : put key value entries = entries ++ [(key, value)] := by
  induction entries with
  | nil => rfl
  | cons entry entries ih =>
    obtain ⟨k, v⟩ := entry
    simp only [List.map_cons, List.mem_cons, not_or] at h
    simp [put, Ne.symm h.1, ih h.2]

end Entry

structure Parameters where
  entries : List Entry
  nodup_keys : (entries.map Prod.fst).Nodup
  deriving DecidableEq, Repr

namespace Parameters

def empty : Parameters := ⟨[], by simp⟩

def keys (parameters : Parameters) : List Text := parameters.entries.map Prod.fst

def get? (parameters : Parameters) (key : Text) : Option Value := parameters.entries.lookup key

def insert (parameters : Parameters) (key : Text) (value : Value) : Parameters :=
  ⟨Entry.put key value parameters.entries, Entry.nodup_keys_put parameters.nodup_keys key value⟩

/-- A repeated key keeps its first place and its last value. -/
def ofList (entries : List Entry) : Parameters :=
  entries.foldl (fun parameters entry => parameters.insert entry.1 entry.2) empty

/-- The same value under every key, in whatever order. -/
def alike (p q : Parameters) : Bool := p.entries.isPerm q.entries

theorem foldl_insert_entries (entries : List Entry) (parameters : Parameters)
    (h : (parameters.keys ++ entries.map Prod.fst).Nodup) :
    (entries.foldl (fun parameters entry => parameters.insert entry.1 entry.2) parameters).entries =
      parameters.entries ++ entries := by
  induction entries generalizing parameters with
  | nil => simp
  | cons entry entries ih =>
    have hn : entry.1 ∉ parameters.entries.map Prod.fst := fun hm =>
      (List.nodup_append.1 h).2.2 entry.1 hm entry.1 (by simp) rfl
    have hp : (parameters.insert entry.1 entry.2).entries = parameters.entries ++ [entry] :=
      Entry.put_of_notMem hn entry.2
    rw [List.foldl_cons, ih, hp]
    · simp
    · simpa [keys, hp, List.map_append, List.append_assoc] using h

theorem entries_ofList {entries : List Entry} (h : (entries.map Prod.fst).Nodup) :
    (ofList entries).entries = entries := by
  simpa [ofList, empty] using foldl_insert_entries entries empty (by simpa [keys, empty] using h)

end Parameters

end Playscript
