import Mathlib.Data.List.Forall2
import Mathlib.Data.List.Perm.Basic
import Playscript.Proofs.Breaks
import Playscript.Proofs.ParameterGrammar
import Playscript.Writing.Write

/-!
# Written parameters

Parameters are written as one of their listings. Conversely, whatever has a listing without a line
break can be written, and no characters are new in what is written but spaces and quotation marks.
-/

namespace Playscript

namespace Text

variable {text value : Text}

theorem needsQuotes_eq_false_iff : value.needsQuotes = false ↔ value.IsBare := by
  cases value with
  | nil =>
    constructor
    · intro h
      cases h
    · intro h
      exact (h.ne_nil rfl).elim
  | cons c rest =>
    simp only [needsQuotes, Bool.or_eq_false_iff, List.any_eq_false, Bool.not_eq_true]
    constructor
    · rintro ⟨hq, hs⟩
      exact ⟨by simp, by simpa using hq, hs⟩
    · intro h
      exact ⟨by simpa using h.unquoted, h.unspaced⟩

end Text

section MapM

variable {α β ε : Type} {f : α → Except ε β} {xs : List α} {ys : List β}

theorem mapM_eq_ok_iff : xs.mapM f = .ok ys ↔ List.Forall₂ (fun x y => f x = .ok y) xs ys := by
  induction xs generalizing ys with
  | nil => simp [List.mapM_nil, pure, Except.pure, eq_comm]
  | cons x xs ih =>
    rw [List.mapM_cons]
    cases hx : f x with
    | error e => simp [bind, Except.bind, List.forall₂_cons_left_iff, hx]
    | ok y =>
      cases hxs : xs.mapM f with
      | error e =>
        simp only [hxs, reduceCtorEq, false_iff] at ih
        simp [bind, Except.bind, hx, List.forall₂_cons_left_iff, ih]
      | ok zs =>
        rw [hxs] at ih
        simp only [Except.ok.injEq] at ih
        simp [bind, Except.bind, pure, Except.pure, List.forall₂_cons_left_iff, hx, ← ih, eq_comm]

theorem map_of_mapM (h : xs.mapM f = .ok ys) : xs.map f = ys.map .ok := by
  rw [mapM_eq_ok_iff] at h
  induction h with
  | nil => rfl
  | cons hx _ ih => rw [List.map_cons, List.map_cons, hx, ih]

theorem exists_mapM_iff {α β ε : Type} {f : α → Except ε β} {xs : List α} :
    (∃ ys, xs.mapM f = .ok ys) ↔ ∀ x ∈ xs, ∃ y, f x = .ok y := by
  constructor
  · rintro ⟨ys, h⟩ x hx
    have hmem : f x ∈ xs.map f := List.mem_map_of_mem hx
    rw [map_of_mapM h] at hmem
    obtain ⟨y, -, hy⟩ := List.mem_map.mp hmem
    exact ⟨y, hy.symm⟩
  · intro h
    induction xs with
    | nil => exact ⟨[], rfl⟩
    | cons x xs ih =>
      obtain ⟨y, hy⟩ := h x List.mem_cons_self
      obtain ⟨ys, hys⟩ := ih fun z hz => h z (List.mem_cons_of_mem x hz)
      refine ⟨y :: ys, ?_⟩
      rw [mapM_eq_ok_iff] at hys ⊢
      exact .cons hy hys

end MapM

namespace Entry

variable {key value written token part : Text} {entry : Entry} {entries : List Entry}
  {parts : List Text} {body : Text}

theorem writeValue_sound (h : writeValue key value = .ok written) :
    value.Spelling written ∧ written.hasBreak = false := by
  unfold writeValue at h
  split at h
  · cases h
  next hbreak =>
  have hbreak : value.hasBreak = false := by simpa using hbreak
  split at h
  next hquotes =>
    obtain rfl := Except.ok.inj h
    exact ⟨.bare (Text.needsQuotes_eq_false_iff.mp (by simpa using hquotes)), hbreak⟩
  split at h
  next mark hfind =>
    obtain rfl := Except.ok.inj h
    have hmem := List.mem_of_find?_eq_some hfind
    have hfree : mark ∉ value := by simpa using List.find?_some hfind
    exact ⟨.quoted hmem hfree, by simp [Text.isBreak_of_mem_quotes hmem, hbreak]⟩
  · cases h

theorem write_sound (h : entry.write = .ok part) :
    entry.Spelling part ∧ part.hasBreak = false := by
  obtain ⟨key, value⟩ := entry
  unfold write at h
  split at h
  · cases h
  next hkey =>
  have hk : Text.IsKey key := by
    simp only [Bool.or_eq_true, List.isEmpty_iff, Bool.not_eq_true', not_or, Bool.not_eq_false,
      List.all_eq_true] at hkey
    exact ⟨hkey.1, hkey.2⟩
  have hflat : key.hasBreak = false := Text.hasBreak_of_unspaced hk.unspaced
  cases value with
  | flag =>
    obtain rfl := Except.ok.inj h
    exact ⟨.flag hk, hflat⟩
  | text value =>
    cases hw : writeValue key value with
    | error e => simp [hw, Except.map] at h
    | ok written =>
      obtain ⟨hspelling, hwritten⟩ := writeValue_sound hw
      have hpart : key ++ Mark.assign :: written = part := by simpa [hw, Except.map] using h
      rw [← hpart]
      refine ⟨.assigned hk hspelling, ?_⟩
      have hassign : isBreak Mark.assign = false := by decide
      simp [hflat, hwritten, hassign]
  | foreign display => cases h

theorem writeValue_complete (key : Text) (h : value.Spelling written)
    (hf : written.hasBreak = false) :
    ∃ part, writeValue key value = .ok part ∧ ∀ c ∈ part, c ∈ written ∨ c ∈ Mark.quotes := by
  cases h with
  | bare h =>
    have hquotes := Text.needsQuotes_eq_false_iff.mpr h
    refine ⟨value, by simp [writeValue, hf, hquotes], ?_⟩
    intro c hc
    exact Or.inl hc
  | @quoted mark hm hv =>
    have hbreak : value.hasBreak = false := Text.hasBreak_of_subset hf (by simp +contextual)
    by_cases hquotes : value.needsQuotes
    · obtain ⟨found, hfind⟩ : ∃ found, Mark.quotes.find? (!value.contains ·) = some found := by
        rw [← Option.isSome_iff_exists, List.find?_isSome]
        exact ⟨mark, hm, by simpa using hv⟩
      have hmem := List.mem_of_find?_eq_some hfind
      refine ⟨found :: (value ++ [found]), ?_, ?_⟩
      · simp only [writeValue, hbreak, hquotes, hfind]
        rfl
      intro c hc
      simp only [List.mem_cons, List.mem_append, List.not_mem_nil, or_false] at hc
      rcases hc with rfl | hc | rfl
      · exact Or.inr hmem
      · exact Or.inl (by simp [hc])
      · exact Or.inr hmem
    · refine ⟨value, by simp [writeValue, hbreak, hquotes], ?_⟩
      intro c hc
      exact Or.inl (by simp [hc])

theorem write_flag (hk : key.IsKey) : write (key, .flag) = .ok key := by
  have hall : key.all Recognizer.isKeyChar = true := List.all_eq_true.mpr hk.chars
  simp [write, hall, hk.ne_nil]

theorem write_assigned (hk : key.IsKey) (value : Text) :
    write (key, .text value) = (writeValue key value).map (key ++ Mark.assign :: ·) := by
  have hall : key.all Recognizer.isKeyChar = true := List.all_eq_true.mpr hk.chars
  simp [write, hall, hk.ne_nil]

theorem write_complete (h : entry.Spelling token) (hf : token.hasBreak = false) :
    ∃ part, entry.write = .ok part ∧ ∀ c ∈ part, c ∈ token ∨ c ∈ Mark.quotes := by
  cases h with
  | flag hk =>
    refine ⟨token, write_flag hk, ?_⟩
    intro c hc
    exact Or.inl hc
  | @assigned key value written hk hv =>
    have hwritten : written.hasBreak = false := Text.hasBreak_of_subset hf (by simp +contextual)
    obtain ⟨part, hpart, hchars⟩ := writeValue_complete key hv hwritten
    refine ⟨key ++ Mark.assign :: part, by rw [write_assigned hk, hpart]; rfl, ?_⟩
    intro c hc
    simp only [List.mem_append, List.mem_cons] at hc ⊢
    rcases hc with hc | rfl | hc
    · exact Or.inl (Or.inl hc)
    · exact Or.inl (Or.inr (Or.inl rfl))
    · rcases hchars c hc with hc | hc
      · exact Or.inl (Or.inr (Or.inr hc))
      · exact Or.inr hc

def spaced (parts : List Text) : Text := parts.flatMap (' ' :: ·)

theorem atTokenEnd_spaced (parts : List Text) : Recognizer.atTokenEnd (spaced parts) := by
  cases parts with
  | nil => rfl
  | cons part parts => exact (by decide : isSpace ' ' = true)

theorem listing_spaced (h : List.Forall₂ Entry.Spelling entries parts) :
    Listing entries (spaced parts) := by
  induction h with
  | nil => exact @Listing.nil [] (by simp)
  | @cons entry part entries parts ht _ ih =>
    have hspace : ∀ c ∈ [' '], isSpace c := by
      intro c hc
      rw [List.mem_singleton.mp hc]
      decide
    exact .cons hspace ht (atTokenEnd_spaced parts) ih

theorem hasBreak_spaced (h : ∀ part ∈ parts, part.hasBreak = false) :
    (spaced parts).hasBreak = false := by
  induction parts with
  | nil => rfl
  | cons part parts ih =>
    have hspace : isBreak ' ' = false := by decide
    have hrest := ih fun part hp => h part (List.mem_cons_of_mem _ hp)
    simp only [spaced, List.flatMap_cons, List.cons_append, Text.hasBreak_cons,
      Text.hasBreak_append, hspace, h part List.mem_cons_self, Bool.false_or]
    exact hrest

/-- Every entry of an unbroken listing can be written, with no new characters but quotes. -/
theorem mapM_write_of_listing (h : Listing entries body) (hf : body.hasBreak = false) :
    ∃ parts, entries.mapM Entry.write = .ok parts ∧
      ∀ part ∈ parts, ∀ c ∈ part, c ∈ body ∨ c ∈ Mark.quotes := by
  induction h with
  | nil => exact ⟨[], rfl, by simp⟩
  | @cons entry entries space token rest hs ht he hr ih =>
    simp only [Text.hasBreak_append, Bool.or_eq_false_iff] at hf
    obtain ⟨part, hpart, hchars⟩ := write_complete ht hf.2.1
    obtain ⟨parts, hparts, hall⟩ := ih hf.2.2
    refine ⟨part :: parts, ?_, ?_⟩
    · rw [mapM_eq_ok_iff] at hparts ⊢
      exact .cons hpart hparts
    · intro p hp c hc
      simp only [List.mem_append]
      rcases List.mem_cons.mp hp with rfl | hp
      · rcases hchars c hc with hc | hc
        · exact Or.inl (Or.inr (Or.inl hc))
        · exact Or.inr hc
      · rcases hall p hp c hc with hc | hc
        · exact Or.inl (Or.inr (Or.inr hc))
        · exact Or.inr hc

theorem spellings_of_mapM (h : entries.mapM Entry.write = .ok parts) :
    List.Forall₂ Entry.Spelling entries parts ∧ ∀ part ∈ parts, part.hasBreak = false := by
  rw [mapM_eq_ok_iff] at h
  induction h with
  | nil => exact ⟨.nil, by simp⟩
  | cons hw _ ih =>
    obtain ⟨hspelling, hbreak⟩ := write_sound hw
    refine ⟨.cons hspelling ih.1, ?_⟩
    intro part hp
    rcases List.mem_cons.mp hp with rfl | hp
    · exact hbreak
    · exact ih.2 part hp

end Entry

namespace Parameters

variable {name body written : Text} {parameters : Parameters}

theorem intercalate_space (name : Text) (parts : List Text) :
    [' '].intercalate (name :: parts) = name ++ Entry.spaced parts := by
  induction parts generalizing name with
  | nil => simp [Entry.spaced]
  | cons part parts ih =>
    rw [List.intercalate_cons_cons, ih]
    simp [Entry.spaced]

theorem writeAfter_sound (h : parameters.writeAfter name = .ok written) :
    ∃ body, written = name ++ body ∧ Recognizer.atTokenEnd body ∧
      Entry.Listing parameters.entries body ∧ body.hasBreak = false := by
  cases hm : parameters.entries.mapM Entry.write with
  | error e => simp [writeAfter, hm, Except.map] at h
  | ok parts =>
    obtain ⟨hspelling, hbreak⟩ := Entry.spellings_of_mapM hm
    have hwritten : [' '].intercalate (name :: parts) = written := by
      simpa [writeAfter, hm, Except.map] using h
    exact ⟨Entry.spaced parts, by rw [← hwritten, intercalate_space],
      Entry.atTokenEnd_spaced parts, Entry.listing_spaced hspelling, Entry.hasBreak_spaced hbreak⟩

theorem writeAfter_complete (name : Text) (h : Entry.Listing parameters.entries body)
    (hf : body.hasBreak = false) : ∃ written, parameters.writeAfter name = .ok written ∧
      ∀ c ∈ written, c ∈ name ∨ c ∈ body ∨ c = ' ' ∨ c ∈ Mark.quotes := by
  obtain ⟨parts, hparts, hchars⟩ := Entry.mapM_write_of_listing h hf
  refine ⟨name ++ Entry.spaced parts, ?_, ?_⟩
  · rw [writeAfter, hparts, Except.map, intercalate_space]
  · intro c hc
    simp only [Entry.spaced, List.mem_append, List.mem_flatMap, List.mem_cons] at hc
    rcases hc with hc | ⟨part, hpart, rfl | hc⟩
    · exact Or.inl hc
    · exact Or.inr (Or.inr (Or.inl rfl))
    · rcases hchars part hpart c hc with hc | hc
      · exact Or.inr (Or.inl hc)
      · exact Or.inr (Or.inr (Or.inr hc))

/-- The order of parameters does not matter for whether they can be written, nor for the
characters that are written. -/
theorem writeAfter_perm {p q : Parameters}
    (h : q.entries.Perm p.entries) (hw : p.writeAfter name = .ok written) :
    ∃ written', q.writeAfter name = .ok written' ∧ ∀ c ∈ written', c ∈ written := by
  cases hm : p.entries.mapM Entry.write with
  | error e => simp [writeAfter, hm, Except.map] at hw
  | ok parts =>
    have hwritten : [' '].intercalate (name :: parts) = written := by
      simpa [writeAfter, hm, Except.map] using hw
    rw [mapM_eq_ok_iff] at hm
    obtain ⟨parts', hm', hperm⟩ := List.perm_comp_forall₂ h hm
    rw [← mapM_eq_ok_iff] at hm'
    refine ⟨name ++ Entry.spaced parts', ?_, ?_⟩
    · rw [writeAfter, hm', Except.map, intercalate_space]
    · intro c hc
      rw [← hwritten, intercalate_space]
      rcases List.mem_append.mp hc with hc | hc
      · exact List.mem_append_left _ hc
      · exact List.mem_append_right _ ((hperm.flatMap_right _).mem_iff.mp hc)

end Parameters

end Playscript
