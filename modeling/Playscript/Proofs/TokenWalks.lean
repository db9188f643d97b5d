import Playscript.Proofs.ParameterGrammar
import Playscript.Proofs.Walk

/-!
# Walks over tokens

Names, identifiers, quotations, parameters and lists of parameters, spelled out as walks. None of
them meets with a mishap, and each finds what its recognizer finds in the text that remains.
-/

namespace Playscript

theorem Parameters.mem_keys_insert {parameters : Parameters} {key other : Text} {value : Value} :
    other ∈ (parameters.insert key value).keys ↔ other = key ∨ other ∈ parameters.keys := by
  change other ∈ (Entry.put key value parameters.entries).map Prod.fst ↔
    other = key ∨ other ∈ parameters.entries.map Prod.fst
  rw [Entry.keys_put]
  by_cases h : key ∈ parameters.entries.map Prod.fst
  · rw [if_pos h]
    constructor
    · exact Or.inr
    · rintro (rfl | hother)
      · exact h
      · exact hother
  · rw [if_neg h, List.mem_append, List.mem_singleton, or_comm]

namespace Walk

variable {cursor : Cursor} {text : Text}

def identifier (cursor : Cursor) : Walk (Finding (Located Token)) := do
  if cursor.atEnd then return .refuse .notIdentifier cursor
  else
    let c ← look cursor
    if isNameChar c then
      let stop ← skipWhile isIdentifierChar (cursor.advance 1)
      node (.identifier (cursor.sliceTo stop.offset)) cursor stop
    else return .refuse .notIdentifier cursor

theorem identifier_eq (cursor : Cursor) :
    identifier cursor = .ok (cursor.report (Recognizer.identifier cursor.remaining)) := by
  cases hr : cursor.remaining with
  | nil => simp [identifier, Cursor.atEnd_iff.mpr hr, Recognizer.identifier, Cursor.report]
  | cons c text =>
    have hend : ¬ cursor.atEnd := by simp [Cursor.atEnd_iff, hr]
    have hword := List.prefix_iff_eq_take.mp (List.takeWhile_prefix (l := text) isIdentifierChar)
    simp only [identifier, hend, look_eq hr, ok_bind, Cursor.advance_one hr, skipWhile_eq]
    by_cases hc : isNameChar c
    · simp only [hc, Cursor.forward_forward, node_forward, Cursor.sliceTo_forward,
        Cursor.remaining_forward, hr, Recognizer.identifier, Nat.add_comm 1]
      simp [← hword]
    · simp [hc, Recognizer.identifier, Cursor.report]

def name (cursor : Cursor) : Walk (Finding Text) := do
  let stop ← skipWhile isNameChar cursor
  if stop.offset = cursor.offset then return .absent
  else return .matched (cursor.sliceTo stop.offset) stop

theorem name_eq (cursor : Cursor) : name cursor =
    .ok (if (cursor.remaining.takeWhile isNameChar).isEmpty then .absent
      else .matched (cursor.remaining.takeWhile isNameChar)
        (cursor.forward (cursor.remaining.takeWhile isNameChar).length)) := by
  have hword := List.prefix_iff_eq_take.mp
    (List.takeWhile_prefix (l := cursor.remaining) isNameChar)
  rw [name, skipWhile_eq, ok_bind, Cursor.sliceTo_forward, ← hword]
  cases hw : cursor.remaining.takeWhile isNameChar with
  | nil => simp
  | cons c word => simp [Cursor.forward]

theorem name_report (cursor : Cursor) : name cursor =
    .ok ((cursor.report (Recognizer.name cursor.remaining)).map Located.content) := by
  rw [name_eq, Recognizer.name]
  cases cursor.remaining.takeWhile isNameChar with
  | nil => rfl
  | cons c word => rfl

def quotation (cursor : Cursor) : Walk (Finding (Located Token)) := do
  if cursor.atEnd then return .absent
  else
    let mark ← look cursor
    if mark ∈ Mark.quotes then
      let body := cursor.advance 1
      match body.find? [mark] body.source.length with
      | none => return .absent
      | some close =>
        node (.quotation (body.sliceTo close) [mark]) cursor (cursor.moveTo (close + 1))
    else return .absent

theorem quotation_eq (cursor : Cursor) :
    quotation cursor = .ok (cursor.report (Recognizer.quotation cursor.remaining)) := by
  cases hr : cursor.remaining with
  | nil => simp [quotation, Cursor.atEnd_iff.mpr hr, Recognizer.quotation, Cursor.report]
  | cons mark text =>
    have hend : ¬ cursor.atEnd := by simp [Cursor.atEnd_iff, hr]
    have htail : (cursor.forward 1).remaining = text := by simp [hr]
    have hbody : (cursor.forward 1).offset ≤ (cursor.forward 1).source.length :=
      Cursor.add_le_length (by simp [hr]) (by simp [hr])
    simp only [quotation, hend, look_eq hr, ok_bind, Cursor.advance_one hr, Recognizer.quotation]
    by_cases hm : mark ∈ Mark.quotes
    · rw [if_pos hm, if_pos hm, Cursor.find?_remaining hbody, htail, Text.find?_mark]
      cases hcut : Text.cutAt? mark text with
      | none => rfl
      | some parts =>
        obtain ⟨value, after⟩ := parts
        obtain ⟨rfl, -⟩ := Text.cutAt?_eq_some_iff.mp hcut
        have hsize : value.length + 2 ≤ cursor.remaining.length := by simp [hr]
        have hstop : cursor.moveTo ((cursor.forward 1).offset + value.length + 1) =
            cursor.forward (value.length + 2) := by
          rw [← Cursor.moveTo_forward (by simp [hr]) hsize]
          congr 1
          simp only [Cursor.forward]
          omega
        have hvalue : (cursor.forward 1).sliceTo ((cursor.forward 1).offset + value.length) =
            value := by
          rw [show (cursor.forward 1).offset + value.length =
            ((cursor.forward 1).forward value.length).offset from rfl, Cursor.sliceTo_forward,
            htail, List.take_left]
        simp only [Option.map_some, hstop, hvalue, node_forward]
        rfl
    · rw [if_neg hm, if_neg hm]
      rfl

def standsAt (c : Char) (cursor : Cursor) : Walk Bool := do
  if cursor.atEnd then return false
  else return (← look cursor) == c

theorem standsAt_eq (c : Char) (cursor : Cursor) :
    standsAt c cursor = .ok (Text.after? [c] cursor.remaining).isSome := by
  cases hr : cursor.remaining with
  | nil => simp [standsAt, Cursor.atEnd_iff.mpr hr, Text.after?]
  | cons d text =>
    have hend : ¬ cursor.atEnd := by simp [Cursor.atEnd_iff, hr]
    by_cases h : c = d
    · simp [standsAt, hend, look_eq hr, Text.after?, h]
    · simp [standsAt, hend, look_eq hr, Text.after?, h, Ne.symm h]

def assigned (key : Text) (cursor start : Cursor) : Walk (Finding (Located Entry)) := do
  if ← tokenEnd start then return .refuse (.missingValue key) start
  else
    let mark ← look start
    if mark ∈ Mark.quotes then
      match ← quotation start with
      | .matched ⟨.quotation value _, _, _⟩ stop =>
        if ← tokenEnd stop then node (key, .text value) cursor stop
        else return .refuse (.textAfterQuote key) stop
      | _ => return .refuse (.openQuote key mark) start
    else
      let stop ← skipWhile (!isSpace ·) start
      node (key, .text (start.sliceTo stop.offset)) cursor stop

theorem assigned_quoted {key value after : Text} {mark : Char} {cursor : Cursor} {size : Nat}
    (hr : cursor.remaining.drop size = mark :: (value ++ mark :: after))
    (hm : mark ∈ Mark.quotes) (hv : mark ∉ value) :
    assigned key cursor (cursor.forward size) =
      .ok (cursor.report (if Recognizer.atTokenEnd after then
        .matched (key, .text value) (size + (value.length + 2))
      else .refused ⟨.textAfterQuote key, size + (value.length + 2)⟩)) := by
  have hstart : (cursor.forward size).remaining = mark :: (value ++ mark :: after) := by
    rw [Cursor.remaining_forward, hr]
  have hcut : Text.cutAt? mark (value ++ mark :: after) = some (value, after) :=
    Text.cutAt?_eq_some_iff.mpr ⟨rfl, hv⟩
  have hs : isSpace mark = false := Recognizer.isSpace_of_mem_quotes hm
  have hafter : ((cursor.forward size).forward (value.length + 2)).remaining = after := by
    rw [Cursor.remaining_forward, hstart]
    simp
  have hquotation : quotation (cursor.forward size) =
      .ok ((cursor.forward size).report
        (.matched (.quotation value [mark]) (value.length + 2))) := by
    rw [quotation_eq, hstart, Recognizer.quotation, if_pos hm, hcut]
  have hend : tokenEnd (cursor.forward size) = .ok false := by
    rw [tokenEnd_eq, hstart, Recognizer.atTokenEnd, hs]
  simp only [assigned, hend, ok_bind, look_eq hstart, if_pos hm, hquotation, Cursor.report,
    tokenEnd_eq, hafter]
  by_cases he : Recognizer.atTokenEnd after
  · rw [if_pos he, if_pos he, Cursor.forward_forward, node_forward]
    rfl
  · rw [if_neg he, if_neg he, Cursor.forward_forward]
    rfl

theorem assigned_eq (key : Text) (cursor : Cursor) (size : Nat) :
    assigned key cursor (cursor.forward size) = .ok (cursor.report
      (((Recognizer.assigned key (cursor.remaining.drop size)).map (key, ·)).shift size)) := by
  have hstart : (cursor.forward size).remaining = cursor.remaining.drop size := by simp
  cases hr : cursor.remaining.drop size with
  | nil =>
    rw [assigned, tokenEnd_eq, hstart, hr]
    rfl
  | cons mark text =>
    rw [hr] at hstart
    have hend : tokenEnd (cursor.forward size) = .ok (isSpace mark) := by
      rw [tokenEnd_eq, hstart, Recognizer.atTokenEnd]
    by_cases hs : isSpace mark
    · rw [assigned, hend, Recognizer.assigned, hs, ok_bind, if_pos rfl, if_pos rfl]
      rfl
    by_cases hm : mark ∈ Mark.quotes
    · cases hcut : Text.cutAt? mark text with
      | none =>
        have hquotation : quotation (cursor.forward size) = .ok .absent := by
          rw [quotation_eq, hstart, Recognizer.quotation, if_pos hm, hcut]
          rfl
        simp only [assigned, hend, ok_bind, look_eq hstart, if_pos hm, if_neg hs, hquotation,
          Recognizer.assigned, hcut]
        rfl
      | some parts =>
        obtain ⟨value, after⟩ := parts
        obtain ⟨rfl, hv⟩ := Text.cutAt?_eq_some_iff.mp hcut
        rw [assigned_quoted hr hm hv]
        simp only [Recognizer.assigned, if_pos hm, if_neg hs, hcut]
        by_cases he : Recognizer.atTokenEnd after
        · rw [if_pos he, if_pos he]
          rfl
        · rw [if_neg he, if_neg he]
          rfl
    · have hword := List.prefix_iff_eq_take.mp
        (List.takeWhile_prefix (l := mark :: text) (!isSpace ·))
      have hcons : (mark :: text).takeWhile (!isSpace ·) = mark :: text.takeWhile (!isSpace ·) :=
        List.takeWhile_cons_of_pos (by simpa using hs)
      have hvalue : (cursor.forward size).sliceTo
          ((cursor.forward size).forward (mark :: text.takeWhile (!isSpace ·)).length).offset =
          mark :: text.takeWhile (!isSpace ·) := by
        rw [Cursor.sliceTo_forward, hstart, ← hcons, ← hword]
      simp only [assigned, hend, ok_bind, look_eq hstart, if_neg hm, if_neg hs, skipWhile_eq,
        hstart, hcons, hvalue, Recognizer.assigned]
      rw [Cursor.forward_forward, node_forward]
      rfl

def parameter (cursor : Cursor) : Walk (Finding (Located Entry)) := do
  if ← tokenEnd cursor then return .absent
  else
    let stop ← skipWhile Recognizer.isKeyChar cursor
    let key := cursor.sliceTo stop.offset
    if ← standsAt Mark.assign stop then
      if key.isEmpty then return .refuse .missingKey cursor
      else assigned key cursor (stop.advance 1)
    else node (key, .flag) cursor stop

theorem parameter_eq (cursor : Cursor) :
    parameter cursor = .ok (cursor.report (Recognizer.parameter cursor.remaining)) := by
  have hstop := cursor.remaining_takeWhile Recognizer.isKeyChar
  have hkey := List.prefix_iff_eq_take.mp
    (List.takeWhile_prefix (l := cursor.remaining) Recognizer.isKeyChar)
  simp only [parameter, tokenEnd_eq, ok_bind, skipWhile_eq, Cursor.sliceTo_forward, ← hkey,
    standsAt_eq, hstop, Recognizer.parameter]
  by_cases hend : Recognizer.atTokenEnd cursor.remaining
  · rw [if_pos hend, if_pos hend]
    rfl
  rw [if_neg hend, if_neg hend]
  rcases Recognizer.after_key cursor.remaining with he | ⟨rest, hr⟩
  · have hmark := Recognizer.after?_assign_of_tokenEnd he
    rw [hmark]
    exact node_forward _ _ _
  · have hmark : Text.after? [Mark.assign] (Mark.assign :: rest) = some rest :=
      Text.after?_append [Mark.assign] rest
    have hrest : cursor.remaining.drop
        ((cursor.remaining.takeWhile Recognizer.isKeyChar).length + 1) = rest := by
      rw [← List.drop_drop, Text.drop_length_takeWhile, hr]
      rfl
    rw [hr] at hstop
    simp only [hr, hmark, Option.isSome_some, if_true, Cursor.advance_one hstop,
      Cursor.forward_forward, assigned_eq, hrest]
    by_cases hk : (cursor.remaining.takeWhile Recognizer.isKeyChar).isEmpty
    · rw [if_pos hk, if_pos hk]
      rfl
    · rw [if_neg hk, if_neg hk]

theorem stop_of_parameter {found : Located Entry} {after : Cursor}
    (h : parameter cursor = .ok (.matched found after)) :
    ∃ size, Recognizer.parameter cursor.remaining = .matched found.content size ∧
      after = cursor.forward size := by
  rw [parameter_eq] at h
  cases hp : Recognizer.parameter cursor.remaining with
  | absent =>
    rw [hp] at h
    cases h
  | refused refusal =>
    rw [hp] at h
    cases h
  | matched entry size =>
    rw [hp] at h
    cases h
    exact ⟨size, rfl, rfl⟩

def parametersFrom (done : Parameters) (cursor : Cursor) : Walk (Finding Parameters) :=
  match _hstart : skipWhile isSpace cursor with
  | .error mishap => .error mishap
  | .ok start =>
    if start.atEnd then return .matched done start
    else
      match _h : parameter start with
      | .error mishap => .error mishap
      | .ok .absent => return .matched done start
      | .ok (.refused complaint) => return .refused complaint
      | .ok (.matched found after) =>
        if found.content.1 ∈ done.keys then return .refuse (.repeatedKey found.content.1) start
        else parametersFrom (done.insert found.content.1 found.content.2) after
termination_by cursor.remaining.length
decreasing_by
  rw [skipWhile_eq] at _hstart
  obtain rfl := Except.ok.inj _hstart
  obtain ⟨size, hp, rfl⟩ := stop_of_parameter _h
  obtain ⟨hpos, hne⟩ := Recognizer.stop_pos_of_parameter hp
  have hlength := List.length_pos_iff.mpr hne
  simp only [Cursor.remaining_forward, List.length_drop] at hlength ⊢
  omega

def parameters (cursor : Cursor) : Walk (Finding Parameters) := parametersFrom .empty cursor

section Rounds

variable {done : Parameters}

theorem keys_insert_iff {seen : List Text} (h : ∀ key, key ∈ seen ↔ key ∈ done.keys)
    (entry : Entry) :
    ∀ key, key ∈ entry.1 :: seen ↔ key ∈ (done.insert entry.1 entry.2).keys := by
  intro key
  rw [List.mem_cons, Parameters.mem_keys_insert, h]

theorem parametersFrom_eq_match (done : Parameters) (cursor : Cursor) :
    parametersFrom done cursor =
      match Recognizer.parameter (cursor.remaining.dropWhile isSpace) with
      | .absent => .ok (.matched done (cursor.forward (cursor.remaining.takeWhile isSpace).length))
      | .refused refusal =>
        .ok (.refuse refusal.fault
          (cursor.forward ((cursor.remaining.takeWhile isSpace).length + refusal.offset)))
      | .matched entry size =>
        if entry.1 ∈ done.keys then
          .ok (.refuse (.repeatedKey entry.1)
            (cursor.forward (cursor.remaining.takeWhile isSpace).length))
        else
          parametersFrom (done.insert entry.1 entry.2)
            (cursor.forward ((cursor.remaining.takeWhile isSpace).length + size)) := by
  have hstart := cursor.remaining_takeWhile isSpace
  rw [parametersFrom]
  split
  next hskip =>
    rw [skipWhile_eq] at hskip
    cases hskip
  next start hskip =>
    rw [skipWhile_eq] at hskip
    obtain rfl := Except.ok.inj hskip
    by_cases hend : (cursor.forward (cursor.remaining.takeWhile isSpace).length).atEnd
    · rw [Cursor.atEnd_iff] at hend
      rw [if_pos (Cursor.atEnd_iff.mpr hend), ← hstart, hend]
      rfl
    rw [if_neg hend]
    have hp := parameter_eq (cursor.forward (cursor.remaining.takeWhile isSpace).length)
    rw [hstart] at hp
    -- In each case the walk has one result, and the branches for the others cannot be taken.
    cases hr : Recognizer.parameter (cursor.remaining.dropWhile isSpace) with
    | absent =>
      rw [hr] at hp
      split <;> rename_i hm
      all_goals rw [hp] at hm; cases hm
      rfl
    | refused refusal =>
      rw [hr] at hp
      split <;> rename_i hm
      all_goals rw [hp] at hm; cases hm
      dsimp only
      rw [← Cursor.forward_forward]
      rfl
    | matched entry size =>
      rw [hr] at hp
      split <;> rename_i hm
      all_goals rw [hp] at hm; cases hm
      dsimp only
      rw [← Cursor.forward_forward]
      rfl

theorem parametersFrom_eq {seen : List Text} {text : Text}
    (hkeys : ∀ key, key ∈ seen ↔ key ∈ done.keys) (hr : cursor.remaining = text) :
    parametersFrom done cursor =
      .ok (match Entry.readAll seen text with
        | .error refusal => .refuse refusal.fault (cursor.forward refusal.offset)
        | .ok entries =>
          .matched (entries.foldl (fun parameters entry => parameters.insert entry.1 entry.2) done)
            (cursor.forward text.length)) := by
  -- The keys of `done` go along with `seen` from round to round.
  fun_induction Entry.readAll seen text generalizing cursor done with
  | case1 seen text hp =>
    have hsplit := Text.length_takeWhile_add isSpace text
    rw [Entry.dropWhile_of_absent hp, List.length_nil, Nat.add_zero] at hsplit
    rw [parametersFrom_eq_match, hr, hp, hsplit]
    rfl
  | case2 seen text space refusal =>
    rename_i hp
    rw [parametersFrom_eq_match, hr, hp]
    rfl
  | case3 seen text space entry size =>
    rename_i hp hseen
    rw [parametersFrom_eq_match, hr, hp]
    exact if_pos ((hkeys _).mp hseen)
  | case4 seen text space entry size hp hseen refusal =>
    rename_i hrest ih
    have hnext := cursor.remaining_takeWhile_add isSpace size
    rw [hr] at hnext
    have hloop := ih (keys_insert_iff hkeys entry) hnext
    rw [hrest] at hloop
    rw [parametersFrom_eq_match, hr, hp]
    refine (if_neg (fun hm => hseen ((hkeys _).mpr hm))).trans ?_
    rw [hloop]
    dsimp only
    rw [Cursor.forward_forward]
    rfl
  | case5 seen text entry size hp hseen entries hrest ih =>
    have hnext := cursor.remaining_takeWhile_add isSpace size
    rw [hr] at hnext
    have hloop := ih (keys_insert_iff hkeys entry) hnext
    rw [hrest] at hloop
    rw [parametersFrom_eq_match, hr, hp]
    refine (if_neg (fun hm => hseen ((hkeys _).mpr hm))).trans ?_
    have hlength : (text.takeWhile isSpace).length + size +
        ((text.dropWhile isSpace).drop size).length = text.length := by
      obtain ⟨token, rest, -, htext, -, rfl⟩ := Recognizer.parameter_sound hp
      have hsplit := Text.length_takeWhile_add isSpace text
      rw [htext, List.length_append] at hsplit
      rw [htext, List.drop_left]
      omega
    rw [hloop]
    dsimp only
    rw [Cursor.forward_forward, hlength]
    rfl

end Rounds

theorem parameters_eq (cursor : Cursor) : parameters cursor =
    .ok ((cursor.report (Recognizer.parameters cursor.remaining)).map Located.content) := by
  have hkeys : ∀ key, key ∈ ([] : List Text) ↔ key ∈ Parameters.empty.keys := fun _ => Iff.rfl
  rw [parameters, parametersFrom_eq hkeys rfl, Recognizer.parameters, Parameters.read]
  cases Entry.readAll [] cursor.remaining with
  | error refusal => rfl
  | ok entries => rfl

end Walk

end Playscript
