import Playscript.Proofs.Dispatch
import Playscript.Proofs.LineWriting

/-!
# Reading what was written

A written line with its LF is taken by one round, whatever follows. So a written document is read
back with the same lines.
-/

namespace Playscript

variable {text rest body name : Text} {line : Line} {parameters : Parameters}

theorem Sigil.newline_notMem_text (sigil : Sigil) : '\n' ∉ sigil.text := by
  cases sigil <;> decide

theorem Sigil.strip?_of_append_lf {sigil : Sigil} {kept : Text}
    (h : sigil.strip? (text ++ '\n' :: rest) = some kept) :
    ∃ kept', sigil.strip? text = some kept' := by
  rw [strip?_eq_some_iff, List.append_eq_append_iff] at h
  rcases h with ⟨middle, hsigil, hrest⟩ | ⟨middle, htext, -⟩
  · cases middle with
    | nil =>
      rw [List.append_nil] at hsigil
      exact ⟨[], strip?_eq_some_iff.mpr (by rw [hsigil, List.append_nil])⟩
    | cons c middle =>
      obtain rfl : '\n' = c := (List.cons.inj hrest).1
      have hmem : '\n' ∈ sigil.text := by
        rw [hsigil]
        simp
      exact (newline_notMem_text sigil hmem).elim
  · exact ⟨middle, strip?_eq_some_iff.mpr htext⟩

namespace Recognizer

theorem takesLine_written (h : line.write = .ok text) (hc : line.kind ≠ .blockComment)
    (hb : line.kind ≠ .bracketTag) (rest : Text) :
    TakesLine line (text ++ '\n' :: rest) (text.length + 1) := by
  obtain ⟨hs, hf⟩ := Line.write_sound h hc hb
  have hline := PhysicalLine.ofText_lf (Text.hasBreak_eq_false_iff.mp hf) rest
  constructor
  · rw [hline]
    exact hs
  · rw [hline]
    rfl

theorem blockComment_written (h : Line.write (.blockComment body) = .ok text) (rest : Text) :
    blockComment (text ++ '\n' :: rest) = .matched (.blockComment body) (text.length + 1) := by
  obtain ⟨rfl, hpiece, hbreak⟩ := Line.writeBlockComment_sound h
  rw [blockComment_eq_matched_iff]
  refine ⟨body, '\n' :: rest, by simp [Mark.commentClose], hpiece, hbreak, rfl, rfl, ?_⟩
  simp [Sigil.text, Mark.commentClose, PhysicalLine.ofText, PhysicalLine.size, isBreak,
    LineEnd.ofText, LineEnd.text]

theorem bracketTag_written (h : Line.write (.tag .bracket name parameters) = .ok text)
    (rest : Text) : bracketTag (text ++ '\n' :: rest) =
      .matched (.tag .bracket name parameters) (text.length + 1) := by
  obtain ⟨hname, written, hw, hclose, rfl⟩ := Line.writeBracketTag_sound h
  obtain ⟨body, rfl, hend, hlist, hbody⟩ := Parameters.writeAfter_sound hw
  have hbreak : (name ++ body).hasBreak = false := by
    rw [Text.hasBreak_append, Text.hasBreak_of_isIdentifier hname, hbody]
    rfl
  have hmatch := @bracketTag_complete (name ++ body) ('\n' :: rest) [] name body parameters hclose
    (Text.foldBreaks_eq_self hbreak) (by simp) hname hend hlist
  have hstop : tagStop (name ++ body) ('\n' :: rest) =
      (Sigil.bracketTag.text ++ (name ++ body) ++ [Mark.bracketClose]).length + 1 := by
    have hempty : PhysicalLine.ofText ('\n' :: rest) = ⟨[], .lf⟩ :=
      @PhysicalLine.ofText_lf [] (by simp) rest
    have hpadding : (⟨[], .lf⟩ : PhysicalLine).isPadding = true := rfl
    have hsize : (⟨[], .lf⟩ : PhysicalLine).size = 1 := rfl
    simp only [tagStop, hempty, hpadding, hsize, if_true, Sigil.text,
      List.length_append, List.length_cons, List.length_nil]
    omega
  rw [← hstop, ← hmatch]
  simp

end Recognizer

namespace Opening

theorem ofText_append_lf (h : ∀ sigil : Sigil, sigil.strip? text = none) (rest : Text) :
    ofText (text ++ '\n' :: rest) = .prose := by
  by_contra hne
  obtain ⟨sigil, kept, hs⟩ := exists_sigil hne
  obtain ⟨kept', hs'⟩ := Sigil.strip?_of_append_lf hs
  rw [h sigil] at hs'
  cases hs'

theorem ofText_write_prose (h : Line.write (.prose body) = .ok text) (rest : Text) :
    ofText (text ++ '\n' :: rest) = .prose := by
  simp only [Line.write] at h
  split at h
  · cases h
  split at h
  · obtain rfl := Except.ok.inj h
    rfl
  next hescape =>
    obtain rfl := Except.ok.inj h
    have hsigils := (Text.needsEscape_eq_false_iff.mp (by simpa using hescape)).2
    exact ofText_append_lf hsigils rest

theorem append_lf_ne_nil (text rest : Text) : text ++ '\n' :: rest ≠ [] := by simp

/-- A written line and its LF are taken by the rule of their opening, whatever follows. -/
theorem recognize_written (h : line.write = .ok text) (rest : Text) :
    (ofText (text ++ '\n' :: rest)).rule.recognize (text ++ '\n' :: rest) =
      .matched line (text.length + 1) := by
  have takesLine := Recognizer.takesLine_written h
  cases line with
  | comment body =>
    have ht := takesLine (by rintro ⟨⟩) (by rintro ⟨⟩) rest
    exact recognize_of_matched .comment (by decide) (Recognizer.comment_complete rfl ht)
  | blockComment body =>
    exact recognize_of_matched .blockComment (by decide) (Recognizer.blockComment_written h rest)
  | cue name emotion =>
    have ht := takesLine (by rintro ⟨⟩) (by rintro ⟨⟩) rest
    exact recognize_of_matched .cue (by decide) (Recognizer.cue_complete (Or.inl rfl) ht)
  | narration =>
    have ht := takesLine (by rintro ⟨⟩) (by rintro ⟨⟩) rest
    exact recognize_of_matched .cue (by decide) (Recognizer.cue_complete (Or.inr rfl) ht)
  | label name alternate =>
    have ht := takesLine (by rintro ⟨⟩) (by rintro ⟨⟩) rest
    exact recognize_of_matched .label (by decide) (Recognizer.label_complete rfl ht)
  | tag form name parameters =>
    cases form with
    | line =>
      have ht := takesLine (by rintro ⟨⟩) (by rintro ⟨⟩) rest
      exact recognize_of_matched .lineTag (by decide) (Recognizer.lineTag_complete rfl ht)
    | bracket =>
      exact recognize_of_matched .bracketTag (by decide) (Recognizer.bracketTag_written h rest)
  | prose body =>
    have ht := takesLine (by rintro ⟨⟩) (by rintro ⟨⟩) rest
    rw [ofText_write_prose h rest]
    exact Recognizer.prose_complete rfl (append_lf_ne_nil text rest) ht

end Opening

theorem Step.ofRules_written (h : line.write = .ok text) (rest : Text) :
    Step.ofRules Rule.standard (text ++ '\n' :: rest) =
      .ok ⟨line, text.length + 1, Nat.succ_pos _⟩ := by
  rw [ofRules_standard]
  simp [ofRules, Opening.recognize_written h rest]

/-- The lines that were read have these contents, and the raw text of each is what was written for
it, with the LF. -/
structure ReadsBack (contents : List Line) (texts : List Text) (read : List (Located Line)) :
    Prop where
  content_eq : read.map Located.content = contents
  raw_eq : read.map Located.raw = texts.map (· ++ ['\n'])

theorem Run.of_written {contents : List Line} {texts : List Text}
    (h : List.Forall₂ (fun line text => line.write = .ok text) contents texts) (source : Text)
    (offset : Nat) (hs : source.drop offset = (texts.map (· ++ ['\n'])).flatten) :
    ∃ rounds read, Run Rule.standard source rounds offset read none ∧
      ReadsBack contents texts read := by
  induction h generalizing offset with
  | nil =>
    have hend : source.length ≤ offset := List.drop_eq_nil_iff.mp hs
    exact ⟨0, [], .finished hend, ⟨rfl, rfl⟩⟩
  | @cons line text contents texts hw _ ih =>
    have hs : source.drop offset = text ++ '\n' :: (texts.map (· ++ ['\n'])).flatten := by
      rw [hs]
      simp
    have hstep := Step.ofRules_written hw (texts.map (· ++ ['\n'])).flatten
    rw [← hs] at hstep
    have hlt : offset < source.length := by
      by_contra hge
      rw [List.drop_eq_nil_iff.mpr (by omega)] at hs
      exact Opening.append_lf_ne_nil _ _ hs.symm
    have hafter : source.drop (offset + (text.length + 1)) =
        (texts.map (· ++ ['\n'])).flatten := by
      rw [← List.drop_drop, hs, ← List.drop_drop, List.drop_left]
      rfl
    obtain ⟨rounds, read, hrun, hcontent, hraw⟩ := ih (offset + (text.length + 1)) hafter
    refine ⟨rounds + 1, _, .line hlt hstep hrun, ?_, ?_⟩
    · rw [List.map_cons, hcontent]
      rfl
    · have htake : (source.drop offset).take (text.length + 1) = text ++ ['\n'] := by
        rw [hs, List.take_length_add_append]
        rfl
      rw [List.map_cons, List.map_cons, hraw]
      exact congrArg (· :: texts.map (· ++ ['\n'])) htake

namespace Document

variable {lines : List (Located Line)} {texts : List Text}

theorem mapM_writeEnded (h : lines.mapM (Line.writeEnded ·.content) = .ok texts) :
    ∃ bare : List Text, texts = bare.map (· ++ ['\n']) ∧
      List.Forall₂ (fun line text => line.write = .ok text) (lines.map Located.content) bare := by
  rw [mapM_eq_ok_iff] at h
  induction h with
  | nil => exact ⟨[], rfl, .nil⟩
  | @cons line ended lines texts hw _ ih =>
    obtain ⟨bare, rfl, hall⟩ := ih
    cases hb : line.content.write with
    | error e => simp [Line.writeEnded, hb, Except.map] at hw
    | ok text =>
      have hended : text ++ ['\n'] = ended := by simpa [Line.writeEnded, hb, Except.map] using hw
      exact ⟨text :: bare, by rw [List.map_cons, hended], .cons hb hall⟩

theorem write_script (h : (script lines).write = .ok text) :
    ∃ texts, text = texts.flatten ∧ lines.mapM (Line.writeEnded ·.content) = .ok texts ∧
      text ≠ [] := by
  cases lines with
  | nil => cases h
  | cons line lines =>
    rw [write] at h
    · cases hm : (line :: lines).mapM (Line.writeEnded ·.content) with
      | error e => simp [hm, Except.map] at h
      | ok texts =>
        have htext : texts.flatten = text := by simpa [hm, Except.map] using h
        refine ⟨texts, htext.symm, rfl, ?_⟩
        obtain ⟨bare, rfl, hall⟩ := mapM_writeEnded hm
        cases hall with
        | cons =>
          rw [← htext]
          simp
    · simp

theorem exists_readsBack (h : (script lines).write = .ok text) : ∃ bare read,
    lines.mapM (Line.writeEnded ·.content) = .ok (bare.map (· ++ ['\n'])) ∧
    (Reader.unlimited Rule.standard).parse text =
      .ok ⟨.script read, text, some (.ofSize 0 text.length)⟩ ∧
    ReadsBack (lines.map Located.content) bare read := by
  obtain ⟨texts, htext, hm, hne⟩ := write_script h
  obtain ⟨bare, rfl, hall⟩ := mapM_writeEnded hm
  obtain ⟨rounds, read, hrun, hback⟩ :=
    Run.of_written hall text 0 (by rw [List.drop_zero, htext])
  exact ⟨bare, read, hm, Reader.parse_of_run (not_excludes_unlimited _ _) hne hrun, hback⟩

/-- A written document is read back with the same lines, each from exactly what was written for
it. -/
theorem parse_write (h : (script lines).write = .ok text) :
    ∃ read, (Reader.unlimited Rule.standard).parse text =
        .ok ⟨.script read, text, some (.ofSize 0 text.length)⟩ ∧
      read.map Located.content = lines.map Located.content ∧
      read.map (fun line => .ok line.raw) = lines.map (Line.writeEnded ·.content) := by
  obtain ⟨bare, read, hm, hparse, hcontent, hraw⟩ := exists_readsBack h
  refine ⟨read, hparse, hcontent, ?_⟩
  rw [map_of_mapM hm, ← hraw, List.map_map]
  rfl

theorem parse_write_escaped :
    (script [⟨.prose ['#'], [], none⟩, ⟨.narration, [], none⟩]).write =
      .ok ['_', '#', '\n', '#', '\n'] ∧
    ∃ read, (Reader.unlimited Rule.standard).parse ['_', '#', '\n', '#', '\n'] =
        .ok ⟨.script read, ['_', '#', '\n', '#', '\n'], some (.ofSize 0 5)⟩ ∧
      read.map Located.content = [.prose ['#'], .narration] := by
  refine ⟨rfl, ?_⟩
  obtain ⟨read, hparse, hcontent, -⟩ := @parse_write ['_', '#', '\n', '#', '\n']
    [⟨.prose ['#'], [], none⟩, ⟨.narration, [], none⟩] rfl
  exact ⟨read, hparse, hcontent⟩

end Document

end Playscript
