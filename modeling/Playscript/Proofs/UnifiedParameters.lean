import Playscript.Proofs.Counterparts
import Playscript.Proofs.FoldedBreaks
import Playscript.Proofs.ParameterGrammar

/-!
# Parameters under other line breaks

In a bracket tag every line break is folded, so CRLF leaves two spaces where LF leaves one. The
parameters are the same, and refused at the same places, but for runs of spaces inside quotations.
-/

namespace Playscript

variable {α β : Type} {text front rest : Text}

def Value.collapsed : Value → Value
  | .text content => .text content.collapseSpaces
  | value => value

def Entry.collapsed (entry : Entry) : Entry := (entry.1, entry.2.collapsed)

/-- Two outcomes of one kind: the same fault, or contents that agree, at offsets that correspond.
The second is the outcome for the unified text. -/
inductive Outcome.Mirrors (same : α → α → Prop) (text : Text) : Outcome α → Outcome α → Prop
  | absent : Mirrors same text .absent .absent
  | refused {fault : Fault} {near far : Nat} (hm : text.Meets near far) :
      Mirrors same text (.refused ⟨fault, near⟩) (.refused ⟨fault, far⟩)
  | matched {a b : α} {near far : Nat} (hs : same a b) (hm : text.Meets near far) :
      Mirrors same text (.matched a near) (.matched b far)

namespace Outcome.Mirrors

variable {same : α → α → Prop} {same' : β → β → Prop} {o o' : Outcome α}

theorem map (h : o.Mirrors same text o') {f : α → β} (hf : ∀ a b, same a b → same' (f a) (f b)) :
    (o.map f).Mirrors same' text (o'.map f) := by
  cases h with
  | absent => exact .absent
  | refused hm => exact .refused hm
  | matched hs hm => exact .matched (hf _ _ hs) hm

theorem shift (h : o.Mirrors same rest o') (ha : Text.Apart front rest) :
    (o.shift front.length).Mirrors same (front ++ rest) (o'.shift front.unifyBreaks.length) := by
  cases h with
  | absent => exact .absent
  | refused hm => exact .refused (hm.append ha)
  | matched hs hm => exact .matched hs (hm.append ha)

end Outcome.Mirrors

inductive Refusal.Mirrors (same : α → α → Prop) (text : Text) :
    Except Refusal α → Except Refusal α → Prop
  | ok {a b : α} (hs : same a b) : Mirrors same text (.ok a) (.ok b)
  | error {fault : Fault} {near far : Nat} (hm : text.Meets near far) :
      Mirrors same text (.error ⟨fault, near⟩) (.error ⟨fault, far⟩)

namespace Recognizer

theorem atTokenEnd_foldBreaks (text : Text) : atTokenEnd text.foldBreaks = atTokenEnd text := by
  cases text with
  | nil => rfl
  | cons c text => exact congrFun Text.takesBreaksAsSpaces_isSpace.folded c

theorem atTokenEnd_unifyBreaks (text : Text) : atTokenEnd text.unifyBreaks = atTokenEnd text := by
  have hhead := Text.head?_unifyBreaks text
  cases text with
  | nil => rfl
  | cons c text =>
    obtain ⟨tail, htail⟩ := List.head?_eq_some_iff.mp hhead
    rw [htail]
    change isSpace (if c = '\r' then '\n' else c) = isSpace c
    by_cases hc : c = '\r'
    · rw [if_pos hc, hc]
      decide
    · rw [if_neg hc]

theorem assigned_of_tokenEnd (h : atTokenEnd text) (key : Text) :
    assigned key text = .refused ⟨.missingValue key, 0⟩ := by
  cases text with
  | nil => rfl
  | cons c text =>
    have hc : isSpace c = true := h
    rw [assigned, if_pos hc]

theorem hasBreak_takeWhile_unspaced (text : Text) :
    Text.hasBreak (text.takeWhile (!isSpace ·)) = false := by
  apply Text.hasBreak_of_unspaced
  intro c hc
  simpa using List.mem_takeWhile_imp hc

theorem assigned_of_bare {c : Char} (hs : isSpace c = false) (hq : c ∉ Mark.quotes)
    (key rest : Text) : assigned key (c :: rest) =
      .matched (.text (c :: rest.takeWhile (!isSpace ·)))
        ((rest.takeWhile (!isSpace ·)).length + 1) := by
  simp [assigned, hs, hq]

theorem isBreak_of_not_isSpace {c : Char} (h : isSpace c = false) : isBreak c = false := by
  cases hb : isBreak c with
  | false => rfl
  | true =>
    rw [isSpace_of_isBreak hb] at h
    cases h

theorem ne_space_of_not_isSpace {c : Char} (h : isSpace c = false) : c ≠ ' ' := by
  rintro rfl
  cases h

theorem assigned_mirrors (key text : Text) :
    (assigned key text.foldBreaks).Mirrors (fun a b => a.collapsed = b.collapsed) text
      (assigned key text.unifyBreaks.foldBreaks) := by
  by_cases he : atTokenEnd text
  · rw [assigned_of_tokenEnd (by rwa [atTokenEnd_foldBreaks]),
      assigned_of_tokenEnd (by rwa [atTokenEnd_foldBreaks, atTokenEnd_unifyBreaks])]
    exact .refused text.meets_zero
  obtain ⟨mark, tail, rfl⟩ : ∃ mark tail, text = mark :: tail := by
    apply List.exists_cons_of_ne_nil
    rintro rfl
    exact he rfl
  have hspace : isSpace mark = false := by simpa [atTokenEnd] using he
  have hb := isBreak_of_not_isSpace hspace
  rw [Text.foldBreaks_cons hb, Text.unifyBreaks_of_not_isBreak hb, Text.foldBreaks_cons hb]
  by_cases hq : mark ∈ Mark.quotes
  · -- The folded value of a quotation may hold more spaces than the unified one.
    simp only [assigned, hspace, hq, if_true, Bool.false_eq_true, if_false,
      Text.cutAt?_foldBreaks hb (ne_space_of_not_isSpace hspace), Text.cutAt?_unifyBreaks hb]
    cases hcut : Text.cutAt? mark tail with
    | none => exact .refused (Text.meets_zero _)
    | some parts =>
      obtain ⟨value, after⟩ := parts
      obtain ⟨rfl, hvalue⟩ := Text.cutAt?_eq_some_iff.mp hcut
      have hmeets : Text.Meets (mark :: (value ++ mark :: after)) (value.length + 2)
          (value.unifyBreaks.length + 2) :=
        (((Text.meets_zero after).cons hb).append (Text.apart_cons hb)).cons hb
      simp only [Option.map_some, Text.length_foldBreaks, atTokenEnd_foldBreaks,
        atTokenEnd_unifyBreaks]
      split
      · exact .matched (congrArg Value.text (Text.collapseSpaces_unifyBreaks value).symm) hmeets
      · exact .refused hmeets
  · -- A bare value is over before the first break.
    have hclass := Text.takesBreaksAsSpaces_unspaced
    have hword := hasBreak_takeWhile_unspaced tail
    rw [assigned_of_bare hspace hq, assigned_of_bare hspace hq,
      hclass.takeWhile_foldBreaks, hclass.takeWhile_foldBreaks, hclass.takeWhile_unifyBreaks,
      Text.unifyBreaks_eq_self hword, Text.foldBreaks_eq_self hword]
    exact .matched rfl ((Text.meets_takeWhile hword).cons hb)

theorem parameter_of_flag (he : atTokenEnd text = false)
    (hk : atTokenEnd (text.dropWhile isKeyChar)) : parameter text =
      .matched (text.takeWhile isKeyChar, .flag) (text.takeWhile isKeyChar).length := by
  simp [parameter, he, after?_assign_of_tokenEnd hk]

theorem parameter_of_assign (he : atTokenEnd text = false)
    (hk : text.dropWhile isKeyChar = Mark.assign :: rest) : parameter text =
      if (text.takeWhile isKeyChar).isEmpty then .refused ⟨.missingKey, 0⟩
      else ((assigned (text.takeWhile isKeyChar) rest).map (text.takeWhile isKeyChar, ·)).shift
        ((text.takeWhile isKeyChar).length + 1) := by
  have hafter : Text.after? [Mark.assign] (Mark.assign :: rest) = some rest :=
    Text.after?_append [Mark.assign] rest
  simp only [parameter, he, hk, hafter, Bool.false_eq_true, if_false]

theorem parameter_mirrors (text : Text) :
    (parameter text.foldBreaks).Mirrors (fun a b => a.collapsed = b.collapsed) text
      (parameter text.unifyBreaks.foldBreaks) := by
  by_cases he : atTokenEnd text
  · rw [parameter_eq_absent_iff.mpr (by rwa [atTokenEnd_foldBreaks]),
      parameter_eq_absent_iff.mpr (by rwa [atTokenEnd_foldBreaks, atTokenEnd_unifyBreaks])]
    exact .absent
  have hfold : atTokenEnd text.foldBreaks = false := by
    simpa [atTokenEnd_foldBreaks] using he
  have hunified : atTokenEnd text.unifyBreaks.foldBreaks = false := by
    simpa [atTokenEnd_foldBreaks, atTokenEnd_unifyBreaks] using he
  have hclass := Text.takesBreaksAsSpaces_isKeyChar
  obtain ⟨hsplit, hchars, -⟩ := Text.run_split isKeyChar text
  have hkey := Text.hasBreak_of_unspaced fun c hc => isSpace_of_isKeyChar (hchars c hc)
  have htake : text.foldBreaks.takeWhile isKeyChar = text.takeWhile isKeyChar := by
    rw [hclass.takeWhile_foldBreaks, Text.foldBreaks_eq_self hkey]
  have htake' : text.unifyBreaks.foldBreaks.takeWhile isKeyChar = text.takeWhile isKeyChar := by
    rw [hclass.takeWhile_foldBreaks, hclass.takeWhile_unifyBreaks, Text.unifyBreaks_eq_self hkey,
      Text.foldBreaks_eq_self hkey]
  have hdrop := hclass.dropWhile_foldBreaks text
  have hdrop' := hclass.dropWhile_foldBreaks text.unifyBreaks
  rw [hclass.dropWhile_unifyBreaks] at hdrop'
  rcases after_key text with hk | ⟨rest, hk⟩
  · rw [parameter_of_flag hfold (by rwa [hdrop, atTokenEnd_foldBreaks]),
      parameter_of_flag hunified (by rwa [hdrop', atTokenEnd_foldBreaks, atTokenEnd_unifyBreaks]),
      htake, htake']
    exact .matched rfl (Text.meets_takeWhile hkey)
  · rw [hk, Text.foldBreaks_cons (by decide)] at hdrop
    rw [hk, Text.unifyBreaks_cons (by decide), Text.foldBreaks_cons (by decide)] at hdrop'
    rw [parameter_of_assign hfold hdrop, parameter_of_assign hunified hdrop', htake, htake']
    split
    · exact .refused text.meets_zero
    · rw [hk] at hsplit
      generalize text.takeWhile isKeyChar = key at hsplit hkey ⊢
      have htext : text = (key ++ [Mark.assign]) ++ rest := by
        rw [List.append_assoc, List.singleton_append, ← hsplit]
      have hfront : Text.hasBreak (key ++ [Mark.assign]) = false := by
        rw [Text.hasBreak_append, hkey]
        decide
      have hvalue := @Outcome.Mirrors.map _ _ rest _
        (fun a b => Entry.collapsed a = Entry.collapsed b) _ _ (assigned_mirrors key rest) (key, ·)
        fun a b h => congrArg (Prod.mk key) h
      have hshift := hvalue.shift (Text.apart_of_flat hfront)
      rw [Text.unifyBreaks_eq_self hfront, ← htext, List.length_append, List.length_singleton]
        at hshift
      exact hshift

end Recognizer

namespace Entry

/-- The parameters of a text and of the unified text, whatever keys were seen. -/
theorem readAll_mirrors (seen : List Text) (text : Text) :
    Refusal.Mirrors (fun a b => a.map collapsed = b.map collapsed) text
      (readAll seen text.foldBreaks) (readAll seen text.unifyBreaks.foldBreaks) := by
  induction hlength : text.length using Nat.strongRecOn generalizing seen text with
  | ind length ih =>
    have hspace := Text.takesBreaksAsSpaces_isSpace
    obtain ⟨hsplit, hrun, hstop⟩ := Text.run_split isSpace text
    have hapart := Text.apart_run hspace.cr_eq_lf hrun hstop
    have htake := congrArg List.length (hspace.takeWhile_foldBreaks text)
    have htake' := congrArg List.length (hspace.takeWhile_foldBreaks text.unifyBreaks)
    rw [Text.length_foldBreaks] at htake htake'
    rw [hspace.takeWhile_unifyBreaks] at htake'
    have hdrop := hspace.dropWhile_foldBreaks text
    have hdrop' := hspace.dropWhile_foldBreaks text.unifyBreaks
    rw [hspace.dropWhile_unifyBreaks] at hdrop'
    generalize text.takeWhile isSpace = space at *
    generalize text.dropWhile isSpace = token at *
    have hparameter := Recognizer.parameter_mirrors token
    generalize hfound : Recognizer.parameter (Text.foldBreaks token) = found at hparameter
    generalize hfound' : Recognizer.parameter (Text.unifyBreaks token).foldBreaks = found'
      at hparameter
    cases hparameter with
    | absent =>
      rw [readAll_of_absent (by rw [hdrop, hfound]), readAll_of_absent (by rw [hdrop', hfound'])]
      exact .ok rfl
    | @refused fault near far hm =>
      rw [readAll_of_refused (by rw [hdrop, hfound]), readAll_of_refused (by rw [hdrop', hfound']),
        htake, htake', hsplit]
      exact .error (hm.append hapart)
    | @matched entry entry' near far hs hm =>
      have hkey : entry'.1 = entry.1 := (congrArg Prod.fst hs).symm
      rw [← hdrop] at hfound
      rw [← hdrop'] at hfound'
      rw [readAll_of_matched hfound, readAll_of_matched hfound', hkey, hdrop, hdrop', htake, htake']
      by_cases hseen : entry.1 ∈ seen
      · rw [if_pos hseen, if_pos hseen, hsplit]
        exact .error (Text.meets_append hapart)
      rw [if_neg hseen, if_neg hseen]
      have hshorter : (token.drop near).length < length := by
        rw [hdrop] at hfound
        obtain ⟨hpos, hne⟩ := Recognizer.stop_pos_of_parameter hfound
        have htoken := List.length_pos_iff.mpr hne
        rw [Text.length_foldBreaks] at htoken
        rw [← hlength, hsplit, List.length_append, List.length_drop]
        omega
      rw [← Text.foldBreaks_drop, ← Text.foldBreaks_drop, hm.drop_eq]
      have hmore := ih _ hshorter (entry.1 :: seen) (token.drop near) rfl
      generalize readAll (entry.1 :: seen) (Text.foldBreaks (token.drop near)) = more at hmore ⊢
      generalize readAll (entry.1 :: seen) (Text.unifyBreaks (token.drop near)).foldBreaks =
        more' at hmore ⊢
      cases hmore with
      | ok hentries =>
        apply Refusal.Mirrors.ok
        rw [List.map_cons, List.map_cons, hs, hentries]
      | error hn =>
        simp only [Refusal.shift, Nat.add_assoc, hsplit]
        exact .error ((hm.add hn).append hapart)

end Entry

theorem Parameters.read_mirrors (text : Text) :
    Refusal.Mirrors (fun a b => a.entries.map Entry.collapsed = b.entries.map Entry.collapsed) text
      (read text.foldBreaks) (read text.unifyBreaks.foldBreaks) := by
  have hread := Entry.readAll_mirrors [] text
  unfold read
  cases ho : Entry.readAll [] text.foldBreaks with
  | error refusal =>
    rw [ho] at hread
    generalize Entry.readAll [] text.unifyBreaks.foldBreaks = found at hread ⊢
    cases hread with
    | error hm => exact .error hm
  | ok entries =>
    cases ho' : Entry.readAll [] text.unifyBreaks.foldBreaks with
    | error refusal =>
      rw [ho, ho'] at hread
      cases hread
    | ok entries' =>
      rw [ho, ho'] at hread
      cases hread with
      | ok h =>
        apply Refusal.Mirrors.ok
        rw [Parameters.entries_ofList (Entry.readAll_sound ho).2.1,
          Parameters.entries_ofList (Entry.readAll_sound ho').2.1, h]

end Playscript
