import Mathlib.Data.List.TakeWhile
import Playscript.Proofs.Occurrences
import Playscript.Reading.Parameters

/-!
# The grammar of parameters

A parameter is spelled as a key alone or as a key, the assignment mark and a value, which is bare or
stands between two quotation marks. A listing is parameters with spaces around them. The recognizers
accept these spellings and no others.
-/

namespace Playscript

structure Text.IsKey (key : Text) : Prop where
  ne_nil : key ≠ []
  chars : ∀ c ∈ key, Recognizer.isKeyChar c

structure Text.IsBare (value : Text) : Prop where
  ne_nil : value ≠ []
  unquoted : ∀ c ∈ value.head?, c ∉ Mark.quotes
  unspaced : ∀ c ∈ value, isSpace c = false

inductive Text.Spelling : Text → Text → Prop where
  | bare {value : Text} (h : value.IsBare) : Spelling value value
  | quoted {value : Text} {mark : Char} (hm : mark ∈ Mark.quotes) (hv : mark ∉ value) :
      Spelling value (mark :: (value ++ [mark]))

inductive Entry.Spelling : Entry → Text → Prop where
  | flag {key : Text} (hk : key.IsKey) : Spelling (key, .flag) key
  | assigned {key value written : Text} (hk : key.IsKey) (hv : value.Spelling written) :
      Spelling (key, .text value) (key ++ Mark.assign :: written)

/-- Parameters one after the other, with spaces before, between and after them. -/
inductive Entry.Listing : List Entry → Text → Prop where
  | nil {space : Text} (hs : ∀ c ∈ space, isSpace c) : Listing [] space
  | cons {entry : Entry} {entries : List Entry} {space token rest : Text}
      (hs : ∀ c ∈ space, isSpace c) (ht : entry.Spelling token)
      (he : Recognizer.atTokenEnd rest) (hr : Listing entries rest) :
      Listing (entry :: entries) (space ++ (token ++ rest))

namespace Recognizer

variable {key value written token text rest : Text} {entry : Entry} {size : Nat}

/-- What comes after a token stops every run of characters that are not spaces. -/
theorem stopsRun_tokenEnd {p : Char → Bool} (hp : ∀ c, isSpace c → p c = false)
    (h : atTokenEnd rest) : Text.StopsRun p rest := by
  cases rest with
  | nil => exact Text.stopsRun_nil
  | cons c rest => exact Text.stopsRun_cons (hp c h)

theorem stopsRun_key (h : atTokenEnd rest) : Text.StopsRun isKeyChar rest :=
  stopsRun_tokenEnd (fun c hc => by simp [isKeyChar, hc]) h

theorem stopsRun_space (h : atTokenEnd rest = false) : Text.StopsRun isSpace rest := by
  cases rest with
  | nil => exact Text.stopsRun_nil
  | cons c rest => exact Text.stopsRun_cons h

theorem isSpace_of_isKeyChar {c : Char} (h : isKeyChar c) : isSpace c = false := by
  simp only [isKeyChar, Bool.and_eq_true, Bool.not_eq_true'] at h
  exact h.1

theorem isSpace_of_mem_quotes {mark : Char} (h : mark ∈ Mark.quotes) : isSpace mark = false := by
  simp only [Mark.quotes, List.mem_cons, List.not_mem_nil, or_false] at h
  rcases h with rfl | rfl <;> decide

theorem atTokenEnd_append_key (h : key.IsKey) (rest : Text) :
    atTokenEnd (key ++ rest) = false := by
  obtain ⟨c, tail, rfl⟩ := List.exists_cons_of_ne_nil h.ne_nil
  exact isSpace_of_isKeyChar (h.chars c (by simp))

theorem assigned_complete (h : value.Spelling written) (he : atTokenEnd rest) :
    assigned key (written ++ rest) = .matched (.text value) written.length := by
  cases h with
  | bare h =>
    obtain ⟨c, tail, rfl⟩ := List.exists_cons_of_ne_nil h.ne_nil
    have hc : isSpace c = false := h.unspaced c (by simp)
    have hq : c ∉ Mark.quotes := h.unquoted c (by simp)
    have hrun : (tail ++ rest).takeWhile (!isSpace ·) = tail :=
      Text.takeWhile_run (fun d hd => by simp [h.unspaced d (by simp [hd])])
        (stopsRun_tokenEnd (fun c hc => by simp [hc]) he)
    simp [assigned, hc, hq, hrun]
  | @quoted mark hm hv =>
    have hs := isSpace_of_mem_quotes hm
    have hcut : Text.cutAt? mark (value ++ mark :: rest) = some (value, rest) :=
      Text.cutAt?_eq_some_iff.mpr ⟨rfl, hv⟩
    simp [assigned, hs, hm, hcut, he]

theorem assigned_sound {v : Value} (h : assigned key text = .matched v size) :
    ∃ value written rest, v = .text value ∧ value.Spelling written ∧ text = written ++ rest ∧
      atTokenEnd rest ∧ size = written.length := by
  cases text with
  | nil => simp [assigned] at h
  | cons c tail =>
    simp only [assigned] at h
    split at h
    · cases h
    next hc =>
    split at h
    next hq =>
      split at h
      · cases h
      next value after hcut =>
      split at h
      next he =>
        obtain ⟨rfl, hv⟩ := Text.cutAt?_eq_some_iff.mp hcut
        obtain ⟨rfl, rfl⟩ := Outcome.matched.inj h
        exact ⟨value, c :: (value ++ [c]), after, rfl, .quoted hq hv, by simp, he, by simp⟩
      · cases h
    next hq =>
      obtain ⟨rfl, rfl⟩ := Outcome.matched.inj h
      have hsplit := List.takeWhile_append_dropWhile (p := (!isSpace ·)) (l := tail)
      refine ⟨c :: tail.takeWhile (!isSpace ·), _, tail.dropWhile (!isSpace ·), rfl, .bare ?_,
        by rw [List.cons_append, hsplit], ?_, rfl⟩
      · refine ⟨by simp, by simpa using hq, ?_⟩
        intro d hd
        rcases List.mem_cons.mp hd with rfl | hd
        · simpa using hc
        · simpa using List.mem_takeWhile_imp hd
      · have hstop := Text.stopsRun_dropWhile (!isSpace ·) tail
        cases hr : tail.dropWhile (!isSpace ·) with
        | nil => rfl
        | cons d rest =>
          rw [hr] at hstop
          simpa [atTokenEnd] using hstop d (by simp)

theorem assigned_refused {refusal : Refusal} (h : assigned key text = .refused refusal) :
    refusal.fault.code = .parameter ∧ refusal.offset ≤ text.length := by
  cases text with
  | nil =>
    obtain rfl := Outcome.refused.inj h
    exact ⟨rfl, Nat.le_refl 0⟩
  | cons c tail =>
    simp only [assigned] at h
    split at h
    · obtain rfl := Outcome.refused.inj h
      exact ⟨rfl, Nat.zero_le _⟩
    split at h
    · split at h
      · obtain rfl := Outcome.refused.inj h
        exact ⟨rfl, Nat.zero_le _⟩
      next value after hcut =>
      split at h
      · cases h
      · obtain ⟨rfl, -⟩ := Text.cutAt?_eq_some_iff.mp hcut
        obtain rfl := Outcome.refused.inj h
        exact ⟨rfl, by simp⟩
    · cases h

theorem assigned_ne_absent (key text : Text) : assigned key text ≠ .absent := by
  cases text with
  | nil => simp [assigned]
  | cons c tail =>
    simp only [assigned]
    repeat' split
    all_goals simp

theorem parameter_eq_absent_iff : parameter text = .absent ↔ atTokenEnd text := by
  constructor
  · intro h
    by_contra he
    rw [parameter, if_neg he] at h
    dsimp only at h
    split at h
    · cases h
    next rest _ =>
    split at h
    · cases h
    · cases ha : assigned (text.takeWhile isKeyChar) rest with
      | absent => exact assigned_ne_absent _ _ ha
      | refused => simp [ha, Outcome.map, Outcome.shift] at h
      | matched => simp [ha, Outcome.map, Outcome.shift] at h
  · intro h
    simp [parameter, h]

theorem after?_assign_of_tokenEnd (h : atTokenEnd rest) :
    Text.after? [Mark.assign] rest = none := by
  cases rest with
  | nil => rfl
  | cons c rest =>
    have hc : Mark.assign ≠ c := by
      rintro rfl
      have hs : isSpace Mark.assign = true := h
      revert hs
      decide
    rw [Text.after?, if_neg hc]

theorem parameter_complete (h : entry.Spelling token) (he : atTokenEnd rest) :
    parameter (token ++ rest) = .matched entry token.length := by
  cases h with
  | flag hk =>
    have hrest := after?_assign_of_tokenEnd he
    simp [parameter, atTokenEnd_append_key hk, Text.takeWhile_run hk.chars (stopsRun_key he),
      Text.dropWhile_run hk.chars (stopsRun_key he), hrest]
  | @assigned key value written hk hv =>
    have hstop : Text.StopsRun isKeyChar (Mark.assign :: (written ++ rest)) :=
      Text.stopsRun_cons (by decide)
    have hafter : Text.after? [Mark.assign] (Mark.assign :: (written ++ rest)) =
        some (written ++ rest) := Text.after?_append [Mark.assign] _
    simp [parameter, atTokenEnd_append_key hk, Text.takeWhile_run hk.chars hstop,
      Text.dropWhile_run hk.chars hstop, hafter, hk.ne_nil, assigned_complete hv he, Outcome.map,
      Outcome.shift]
    omega

theorem isKey_takeWhile (h : text.takeWhile isKeyChar ≠ []) :
    Text.IsKey (text.takeWhile isKeyChar) :=
  ⟨h, fun _ hc => List.mem_takeWhile_imp hc⟩

theorem after_key (text : Text) : atTokenEnd (text.dropWhile isKeyChar) ∨
    ∃ rest, text.dropWhile isKeyChar = Mark.assign :: rest := by
  have hstop := Text.stopsRun_dropWhile isKeyChar text
  cases hd : text.dropWhile isKeyChar with
  | nil => exact Or.inl rfl
  | cons c rest =>
    rw [hd] at hstop
    have hc : isKeyChar c = false := hstop c (by simp)
    by_cases hm : c = Mark.assign
    · exact Or.inr ⟨rest, by rw [hm]⟩
    · have hs : isSpace c = true := by simpa [isKeyChar, hm] using hc
      exact Or.inl hs

theorem parameter_sound (h : parameter text = .matched entry size) :
    ∃ token rest, entry.Spelling token ∧ text = token ++ rest ∧ atTokenEnd rest ∧
      size = token.length := by
  have hsplit := List.takeWhile_append_dropWhile (p := isKeyChar) (l := text)
  unfold parameter at h
  split at h
  · cases h
  next hend =>
  dsimp only at h
  rcases after_key text with he | ⟨rest, hr⟩
  · rw [after?_assign_of_tokenEnd he] at h
    obtain ⟨rfl, rfl⟩ := Outcome.matched.inj h
    refine ⟨_, _, .flag (isKey_takeWhile ?_), hsplit.symm, he, rfl⟩
    intro hk
    rw [hk, List.nil_append] at hsplit
    exact hend (hsplit ▸ he)
  · rw [hr] at h
    have hafter : Text.after? [Mark.assign] (Mark.assign :: rest) = some rest :=
      Text.after?_append [Mark.assign] rest
    rw [hafter] at h
    dsimp only at h
    split at h
    · cases h
    next hk =>
    cases ha : assigned (text.takeWhile isKeyChar) rest with
    | absent => simp [ha, Outcome.map, Outcome.shift] at h
    | refused => simp [ha, Outcome.map, Outcome.shift] at h
    | matched v stop =>
      rw [ha] at h
      obtain ⟨rfl, rfl⟩ := Outcome.matched.inj h
      obtain ⟨value, written, after, rfl, hw, rfl, he, rfl⟩ := assigned_sound ha
      refine ⟨_, after, .assigned (isKey_takeWhile (by simpa using hk)) hw, ?_, he, ?_⟩
      · rw [List.append_assoc, List.cons_append, ← hr, hsplit]
      · simp only [List.length_append, List.length_cons]
        omega

theorem parameter_refused {refusal : Refusal} (h : parameter text = .refused refusal) :
    refusal.fault.code = .parameter ∧ refusal.offset ≤ text.length := by
  have hsplit := List.takeWhile_append_dropWhile (p := isKeyChar) (l := text)
  unfold parameter at h
  split at h
  · cases h
  dsimp only at h
  split at h
  · cases h
  next rest hafter =>
  split at h
  · obtain rfl := Outcome.refused.inj h
    exact ⟨rfl, Nat.zero_le _⟩
  · have hr := Text.after?_eq_some_iff.mp hafter
    cases ha : assigned (text.takeWhile isKeyChar) rest with
    | absent => simp [ha, Outcome.map, Outcome.shift] at h
    | matched => simp [ha, Outcome.map, Outcome.shift] at h
    | refused inner =>
      rw [ha] at h
      obtain rfl := Outcome.refused.inj h
      obtain ⟨hcode, hoff⟩ := assigned_refused ha
      refine ⟨hcode, ?_⟩
      have hlen := congrArg List.length hsplit
      rw [hr] at hlen
      simp only [List.length_append, List.length_cons, List.length_nil] at hlen
      simp only [Refusal.shift]
      omega

end Recognizer

theorem Text.IsKey.unspaced {key : Text} (h : key.IsKey) : ∀ c ∈ key, isSpace c = false := by
  intro c hc
  exact Recognizer.isSpace_of_isKeyChar (h.chars c hc)

namespace Entry

open Recognizer (atTokenEnd)

variable {seen : List Text} {text : Text} {entries : List Entry}

theorem Spelling.atTokenEnd_append {entry : Entry} {token : Text} (h : entry.Spelling token)
    (rest : Text) : atTokenEnd (token ++ rest) = false := by
  cases h with
  | flag hk => exact Recognizer.atTokenEnd_append_key hk rest
  | assigned hk _ =>
    rw [List.append_assoc]
    exact Recognizer.atTokenEnd_append_key hk _

theorem readAll_of_absent (h : Recognizer.parameter (text.dropWhile isSpace) = .absent) :
    readAll seen text = .ok [] := by
  rw [readAll]
  split <;> simp_all

theorem readAll_of_refused {refusal : Refusal}
    (h : Recognizer.parameter (text.dropWhile isSpace) = .refused refusal) :
    readAll seen text = .error (refusal.shift (text.takeWhile isSpace).length) := by
  rw [readAll]
  split <;> simp_all

theorem readAll_of_matched {entry : Entry} {size : Nat}
    (h : Recognizer.parameter (text.dropWhile isSpace) = .matched entry size) :
    readAll seen text =
      if entry.1 ∈ seen then .error ⟨.repeatedKey entry.1, (text.takeWhile isSpace).length⟩
      else
        match readAll (entry.1 :: seen) ((text.dropWhile isSpace).drop size) with
        | .error refusal => .error (refusal.shift ((text.takeWhile isSpace).length + size))
        | .ok entries => .ok (entry :: entries) := by
  rw [readAll]
  split
  · simp_all
  · simp_all
  next hm =>
    obtain ⟨rfl, rfl⟩ := Outcome.matched.inj (hm.symm.trans h)
    rfl

/-- A listing with distinct keys, none of them seen before, is read as it stands. -/
theorem readAll_complete (h : Listing entries text) (hd : (entries.map Prod.fst).Nodup)
    (hs : ∀ key ∈ entries.map Prod.fst, key ∉ seen) : readAll seen text = .ok entries := by
  induction h generalizing seen with
  | @nil space hspace =>
    have hdrop : space.dropWhile isSpace = [] := List.dropWhile_eq_nil_iff.mpr hspace
    exact readAll_of_absent (by rw [hdrop, Recognizer.parameter_eq_absent_iff]; rfl)
  | @cons entry entries space token rest hspace ht he _ ih =>
    have hstop := Recognizer.stopsRun_space (ht.atTokenEnd_append rest)
    have hdrop := Text.dropWhile_run hspace hstop
    have hmatch := Recognizer.parameter_complete ht he
    rw [← hdrop] at hmatch
    rw [List.map_cons, List.nodup_cons] at hd
    have hnot : entry.1 ∉ seen := hs entry.1 (by simp)
    have hrest : readAll (entry.1 :: seen) rest = .ok entries := by
      apply ih hd.2
      intro key hkey
      rw [List.mem_cons, not_or]
      refine ⟨?_, hs key (by rw [List.map_cons]; exact List.mem_cons_of_mem _ hkey)⟩
      rintro rfl
      exact hd.1 hkey
    rw [readAll_of_matched hmatch, if_neg hnot, hdrop, List.drop_left, hrest]

theorem dropWhile_of_absent (h : Recognizer.parameter (text.dropWhile isSpace) = .absent) :
    text.dropWhile isSpace = [] := by
  have hstop := Text.stopsRun_dropWhile isSpace text
  have hend := Recognizer.parameter_eq_absent_iff.mp h
  cases hd : text.dropWhile isSpace with
  | nil => rfl
  | cons c rest =>
    rw [hd] at hstop hend
    have hc : isSpace c = false := hstop c (by simp)
    have ht : isSpace c = true := hend
    rw [hc] at ht
    cases ht

theorem readAll_sound (h : readAll seen text = .ok entries) :
    Listing entries text ∧ (entries.map Prod.fst).Nodup ∧
      ∀ key ∈ entries.map Prod.fst, key ∉ seen := by
  fun_induction readAll seen text generalizing entries with
  | case1 seen text hp =>
    obtain rfl := Except.ok.inj h
    exact ⟨.nil (List.dropWhile_eq_nil_iff.mp (dropWhile_of_absent hp)), by simp, by simp⟩
  | case2 seen text refusal hp => cases h
  | case3 seen text entry size hp hseen => cases h
  | case4 seen text entry size hp hseen refusal hr ih => cases h
  | case5 seen text entry size hp hseen later hr ih =>
    obtain rfl := Except.ok.inj h
    obtain ⟨token, rest, ht, htext, he, rfl⟩ := Recognizer.parameter_sound hp
    obtain ⟨hlist, hnodup, hfresh⟩ := ih hr
    rw [htext, List.drop_left] at hlist
    refine ⟨?_, ?_, ?_⟩
    · have hsplit := List.takeWhile_append_dropWhile (p := isSpace) (l := text)
      rw [← hsplit, htext]
      exact .cons (fun c hc => List.mem_takeWhile_imp hc) ht he hlist
    · rw [List.map_cons, List.nodup_cons]
      refine ⟨?_, hnodup⟩
      intro hm
      exact hfresh entry.1 hm (by simp)
    · intro key hkey
      rw [List.map_cons, List.mem_cons] at hkey
      rcases hkey with rfl | hkey
      · exact hseen
      · intro hm
        exact hfresh key hkey (List.mem_cons_of_mem _ hm)

theorem readAll_refused {refusal : Refusal} (h : readAll seen text = .error refusal) :
    refusal.fault.code = .parameter ∧ refusal.offset ≤ text.length := by
  fun_induction readAll seen text generalizing refusal with
  | case1 seen text hp => cases h
  | case2 seen text space inner =>
    rename_i hp
    obtain rfl := Except.error.inj h
    obtain ⟨hcode, hoff⟩ := Recognizer.parameter_refused hp
    refine ⟨hcode, ?_⟩
    have hlen := Text.length_takeWhile_add isSpace text
    simp only [Refusal.shift]
    omega
  | case3 seen text space entry size hp =>
    obtain rfl := Except.error.inj h
    exact ⟨rfl, (List.takeWhile_sublist isSpace).length_le⟩
  | case4 seen text space entry size hp hseen inner hr =>
    rename_i ih
    obtain rfl := Except.error.inj h
    obtain ⟨hcode, hoff⟩ := ih hr
    refine ⟨hcode, ?_⟩
    obtain ⟨token, rest, -, htext, -, rfl⟩ := Recognizer.parameter_sound hp
    have hlen := Text.length_takeWhile_add isSpace text
    rw [htext, List.drop_left] at hoff
    rw [htext, List.length_append] at hlen
    simp only [Refusal.shift]
    omega
  | case5 seen text entry size hp hseen later hr ih => cases h

end Entry

namespace Parameters

variable {text : Text} {parameters : Parameters}

theorem ofList_entries (parameters : Parameters) : ofList parameters.entries = parameters := by
  have h := entries_ofList parameters.nodup_keys
  cases hp : ofList parameters.entries with
  | mk entries nodup =>
    cases parameters
    simp_all

/-- The listings of some parameters are the texts from which they are read. -/
theorem read_eq_ok_iff : read text = .ok parameters ↔ Entry.Listing parameters.entries text := by
  constructor
  · intro h
    cases hr : Entry.readAll [] text with
    | error refusal => simp [read, hr, Except.map] at h
    | ok entries =>
      obtain ⟨hlist, hnodup, -⟩ := Entry.readAll_sound hr
      have hp : ofList entries = parameters := by simpa [read, hr, Except.map] using h
      rw [← hp, entries_ofList hnodup]
      exact hlist
  · intro h
    have hr : Entry.readAll [] text = .ok parameters.entries :=
      Entry.readAll_complete h parameters.nodup_keys (by simp)
    rw [read, hr, Except.map, ofList_entries]

theorem read_refused {refusal : Refusal} (h : read text = .error refusal) :
    refusal.fault.code = .parameter ∧ refusal.offset ≤ text.length := by
  cases hr : Entry.readAll [] text with
  | ok entries => simp [read, hr, Except.map] at h
  | error inner =>
    have he : inner = refusal := by simpa [read, hr, Except.map] using h
    exact he ▸ Entry.readAll_refused hr

end Parameters

end Playscript
