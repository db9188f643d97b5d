import Playscript.Proofs.ParameterGrammar

/-!
# Refused parameters

Where a list of parameters is refused, complete parameters stand before the token that is to blame.
The token can be completed from where it is refused, and so can the list, unless the key of the
token is among those before it.
-/

namespace Playscript

def Fault.malformedKey? : Fault → Option Text
  | .missingValue key => some key
  | .openQuote key _ => some key
  | .textAfterQuote key => some key
  | _ => none

inductive Entry.Leading : List Entry → Text → Prop where
  | nil {space : Text} (hs : ∀ c ∈ space, isSpace c) : Leading [] space
  | cons {entry : Entry} {entries : List Entry} {space token rest : Text} {c : Char}
      (hs : ∀ d ∈ space, isSpace d) (ht : entry.Spelling token) (hc : isSpace c)
      (hr : Leading entries (c :: rest)) :
      Leading (entry :: entries) (space ++ (token ++ c :: rest))

/-- A malformed parameter is refused whose key is among those that stand before it. -/
def Refusal.RepeatsKeyIn (refusal : Refusal) (body : Text) : Prop :=
  ∃ entries front token inner key, body = front ++ token ∧ Entry.Leading entries front ∧
    Recognizer.parameter token = .refused inner ∧ refusal = inner.shift front.length ∧
    inner.fault.malformedKey? = some key ∧ key ∈ entries.map Prod.fst

namespace Entry

variable {entries more : List Entry} {front tail : Text}

theorem Listing.space_append {space : Text} (h : Listing entries tail)
    (hs : ∀ c ∈ space, isSpace c) : Listing entries (space ++ tail) := by
  have happend : ∀ {space' : Text}, (∀ c ∈ space', isSpace c) →
      ∀ c ∈ space ++ space', isSpace c := by
    intro space' hs' c hc
    rcases List.mem_append.mp hc with hc | hc
    · exact hs c hc
    · exact hs' c hc
  cases h with
  | nil hs' => exact .nil (happend hs')
  | cons hs' ht he hr =>
    rw [← List.append_assoc]
    exact .cons (happend hs') ht he hr

theorem Leading.listing_append (h : Leading entries front) (hm : Listing more tail) :
    Listing (entries ++ more) (front ++ tail) := by
  induction h with
  | nil hs => exact hm.space_append hs
  | cons hs ht hc _ ih =>
    rw [List.append_assoc, List.append_assoc]
    exact .cons hs ht hc ih

theorem Leading.listing (h : Leading entries front) : Listing entries front := by
  have hnil : Listing [] [] := .nil (by simp)
  have hl := h.listing_append hnil
  rwa [List.append_nil, List.append_nil] at hl

end Entry

namespace Recognizer

variable {key front text token : Text} {refusal : Refusal}

theorem parameter_ne_absent_iff : parameter token ≠ .absent ↔ atTokenEnd token = false := by
  rw [ne_eq, parameter_eq_absent_iff, Bool.not_eq_true]

theorem exists_cons_of_tokenEnd (h : atTokenEnd (front ++ token))
    (ht : atTokenEnd token = false) : ∃ c tail, front = c :: tail := by
  apply List.exists_cons_of_ne_nil
  rintro rfl
  rw [List.nil_append, ht] at h
  cases h

theorem isBare_x : Text.IsBare ['x'] := by
  constructor
  · simp
  · intro c hc
    obtain rfl := Option.some.inj hc
    decide
  · intro c hc
    rw [List.mem_singleton.mp hc]
    decide

theorem assigned_refused_completed (h : assigned key text = .refused refusal) :
    refusal.fault.malformedKey? = some key ∧ ∃ value more, (more = [] ∨ more = ['x']) ∧
      Text.Spelling value (text.take refusal.offset ++ more) := by
  have hx : ∃ value more, (more = [] ∨ more = ['x']) ∧
      Text.Spelling value (text.take 0 ++ more) := ⟨['x'], ['x'], Or.inr rfl, .bare isBare_x⟩
  cases text with
  | nil =>
    obtain rfl := Outcome.refused.inj h
    exact ⟨rfl, hx⟩
  | cons c tail =>
    simp only [assigned] at h
    split at h
    · obtain rfl := Outcome.refused.inj h
      exact ⟨rfl, hx⟩
    split at h
    next hm =>
      split at h
      · obtain rfl := Outcome.refused.inj h
        exact ⟨rfl, hx⟩
      next value after hcut =>
      split at h
      · cases h
      · obtain ⟨rfl, hv⟩ := Text.cutAt?_eq_some_iff.mp hcut
        obtain rfl := Outcome.refused.inj h
        refine ⟨rfl, value, [], Or.inl rfl, ?_⟩
        have hsplit : c :: (value ++ c :: after) = (c :: (value ++ [c])) ++ after := by simp
        rw [hsplit, List.take_left' (by simp), List.append_nil]
        exact .quoted hm hv
    · cases h

/-- A parameter that is refused has no key yet, or it can be completed from there. -/
theorem parameter_refused_completed (h : parameter token = .refused refusal) :
    refusal.offset = 0 ∨ ∃ key value more, refusal.fault.malformedKey? = some key ∧
      (more = [] ∨ more = ['x']) ∧
      Entry.Spelling (key, .text value) (token.take refusal.offset ++ more) := by
  have hsplit := List.takeWhile_append_dropWhile (p := isKeyChar) (l := token)
  unfold parameter at h
  split at h
  · cases h
  dsimp only at h
  split at h
  · cases h
  next rest hafter =>
  have hrest := Text.after?_eq_some_iff.mp hafter
  split at h
  · obtain rfl := Outcome.refused.inj h
    exact Or.inl rfl
  next hkey =>
  have hk := isKey_takeWhile (by simpa using hkey)
  generalize token.takeWhile isKeyChar = key at h hsplit hk
  cases ha : assigned key rest with
  | absent => simp [ha, Outcome.map, Outcome.shift] at h
  | matched => simp [ha, Outcome.map, Outcome.shift] at h
  | refused inner =>
    rw [ha] at h
    obtain rfl := Outcome.refused.inj h
    obtain ⟨hfault, value, more, hmore, hs⟩ := assigned_refused_completed ha
    refine Or.inr ⟨key, value, more, hfault, hmore, ?_⟩
    have htoken : token = (key ++ [Mark.assign]) ++ rest := by
      rw [← hsplit, hrest, List.append_assoc]
    have hlength : key.length + 1 = (key ++ [Mark.assign]).length := by simp
    rw [htoken, Refusal.shift, hlength, List.take_length_add_append, List.append_assoc,
      List.append_assoc]
    exact .assigned hk hs

end Recognizer

namespace Entry

variable {seen : List Text} {text : Text} {refusal : Refusal}

/-- Before the token that is refused stand the parameters read so far. The token repeats a key, or
is itself malformed. -/
theorem readAll_refused_split (h : readAll seen text = .error refusal) :
    ∃ entries front token, text = front ++ token ∧ Leading entries front ∧
      Recognizer.atTokenEnd token = false ∧ (entries.map Prod.fst).Nodup ∧
      (∀ key ∈ entries.map Prod.fst, key ∉ seen) ∧
      (refusal.offset = front.length ∨ ∃ inner, Recognizer.parameter token = .refused inner ∧
        refusal = inner.shift front.length) := by
  fun_induction readAll seen text generalizing refusal with
  | case1 seen text hp => cases h
  | case2 seen text space inner =>
    rename_i hp
    obtain rfl := Except.error.inj h
    obtain ⟨hsplit, hspace, -⟩ := Text.run_split isSpace text
    have hend := Recognizer.parameter_ne_absent_iff.mp (by rw [hp]; simp)
    exact ⟨[], _, _, hsplit, .nil hspace, hend, by simp, by simp, Or.inr ⟨inner, hp, rfl⟩⟩
  | case3 seen text space entry size hp =>
    obtain rfl := Except.error.inj h
    obtain ⟨hsplit, hspace, -⟩ := Text.run_split isSpace text
    have hend := Recognizer.parameter_ne_absent_iff.mp (by rw [hp]; simp)
    exact ⟨[], _, _, hsplit, .nil hspace, hend, by simp, by simp, Or.inl rfl⟩
  | case4 seen text space entry size hp hseen inner hr =>
    rename_i ih
    obtain rfl := Except.error.inj h
    obtain ⟨hsplit, hspace, -⟩ := Text.run_split isSpace text
    obtain ⟨spelled, rest, ht, htext, he, rfl⟩ := Recognizer.parameter_sound hp
    obtain ⟨entries, front, token, hrest, hlead, hend, hnodup, hfresh, hstop⟩ := ih hr
    rw [htext, List.drop_left] at hrest
    subst hrest
    -- Where this token ends the refused one does not begin, so something stands between them.
    obtain ⟨c, front, rfl⟩ := Recognizer.exists_cons_of_tokenEnd he hend
    have hlength : (text.takeWhile isSpace ++ (spelled ++ c :: front)).length =
        space + spelled.length + (c :: front).length := by
      rw [List.length_append, List.length_append, ← Nat.add_assoc]
    refine ⟨entry :: entries, _, token, ?_, .cons hspace ht he hlead, hend, ?_, ?_, ?_⟩
    · calc text = text.takeWhile isSpace ++ (spelled ++ (c :: front ++ token)) := by
            rw [← htext]
            exact hsplit
        _ = _ := by simp
    · rw [List.map_cons, List.nodup_cons]
      refine ⟨?_, hnodup⟩
      intro hm
      exact hfresh entry.1 hm List.mem_cons_self
    · intro key hkey
      rw [List.map_cons] at hkey
      rcases List.mem_cons.mp hkey with rfl | hkey
      · exact hseen
      · intro hm
        exact hfresh key hkey (List.mem_cons_of_mem _ hm)
    · rw [hlength]
      rcases hstop with hoff | ⟨refused, hp', rfl⟩
      · left
        rw [← hoff]
        rfl
      · right
        refine ⟨refused, hp', ?_⟩
        simp only [Refusal.shift, Nat.add_assoc]
  | case5 seen text entry size hp hseen later hr ih => cases h

end Entry

namespace Parameters

variable {body : Text} {refusal : Refusal}

/-- A list of parameters can be completed from where it is refused, unless a key is repeated by a
malformed parameter. -/
theorem read_refused_completed (h : read body = .error refusal)
    (he : Recognizer.atTokenEnd body) (hr : ¬ refusal.RepeatsKeyIn body) :
    ∃ (parameters : Parameters) (more : Text), (more = [] ∨ more = ['x']) ∧
      Entry.Listing parameters.entries (body.take refusal.offset ++ more) ∧
      Recognizer.atTokenEnd (body.take refusal.offset ++ more) := by
  cases hread : Entry.readAll [] body with
  | ok entries => simp [read, hread, Except.map] at h
  | error inner =>
    obtain rfl : inner = refusal := by simpa [read, hread, Except.map] using h
    obtain ⟨entries, front, token, rfl, hlead, hend, hnodup, -, hstop⟩ :=
      Entry.readAll_refused_split hread
    obtain ⟨c, front, rfl⟩ := Recognizer.exists_cons_of_tokenEnd he hend
    have hfront : inner.offset = (c :: front).length → ∃ (parameters : Parameters) (more : Text),
        (more = [] ∨ more = ['x']) ∧
        Entry.Listing parameters.entries ((c :: front ++ token).take inner.offset ++ more) ∧
        Recognizer.atTokenEnd ((c :: front ++ token).take inner.offset ++ more) := by
      intro hoff
      rw [hoff, List.take_left]
      exact ⟨⟨entries, hnodup⟩, [], Or.inl rfl, by rw [List.append_nil]; exact hlead.listing, he⟩
    rcases hstop with hoff | ⟨refused, hp, rfl⟩
    · exact hfront hoff
    rcases Recognizer.parameter_refused_completed hp with hzero | ⟨key, value, more, hkey, hm, hs⟩
    · exact hfront (by rw [Refusal.shift, hzero, Nat.add_zero])
    · have hnew : key ∉ entries.map Prod.fst := by
        intro hmem
        exact hr ⟨entries, _, token, refused, key, rfl, hlead, hp, rfl, hkey, hmem⟩
      have hlast : Entry.Listing [(key, .text value)]
          (token.take refused.offset ++ more) := by
        have hnil : Entry.Listing [] [] := .nil (by simp)
        have hcons := @Entry.Listing.cons _ [] [] _ [] (by simp) hs rfl hnil
        rwa [List.nil_append, List.append_nil] at hcons
      have hkeys : ((entries ++ [(key, Value.text value)]).map Prod.fst).Nodup := by
        rw [List.map_append, List.nodup_append]
        refine ⟨hnodup, by simp, ?_⟩
        intro a ha b hb
        obtain rfl : b = key := by simpa using hb
        rintro rfl
        exact hnew ha
      refine ⟨⟨_, hkeys⟩, more, hm, ?_, ?_⟩
      · rw [Refusal.shift, List.take_length_add_append, List.append_assoc]
        exact hlead.listing_append hlast
      · rw [Refusal.shift, List.take_length_add_append]
        exact he

end Parameters

end Playscript
