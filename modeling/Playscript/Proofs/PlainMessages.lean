import Playscript.Proofs.Dispatch

/-!
# What messages show of a script

A fault can quote a key from the source, and nothing else that the source chooses. No space is part
of a key, so that the only space in a message is that of ASCII, and a failure is shown on the three
lines made for it.
-/

namespace Playscript

namespace Text

def PlainSpaced (text : Text) : Prop := ∀ c ∈ text, isSpace c → c = ' '

instance (text : Text) : Decidable text.PlainSpaced :=
  List.decidableBAll (fun c => isSpace c → c = ' ') text

variable {a b text : Text}

theorem plainSpaced_nil : PlainSpaced [] := by decide

theorem PlainSpaced.append (ha : a.PlainSpaced) (hb : b.PlainSpaced) : PlainSpaced (a ++ b) :=
  List.forall_mem_append.mpr ⟨ha, hb⟩

theorem plainSpaced_between (ha : a.PlainSpaced) (ht : text.PlainSpaced) (hb : b.PlainSpaced) :
    PlainSpaced (a ++ text ++ b) :=
  (ha.append ht).append hb

theorem isEmpty_toList {chars : List Char} (h : chars.isEmpty = false) :
    (String.ofList chars).toList.isEmpty = false := by
  rw [String.toList_ofList]
  exact h

theorem plainSpaced_toList {chars : List Char} (h : PlainSpaced chars) :
    PlainSpaced (String.ofList chars).toList := by
  rw [String.toList_ofList]
  exact h

theorem plainSpaced_of_unspaced (h : ∀ c ∈ text, isSpace c = false) : text.PlainSpaced := by
  intro c hc hs
  rw [h c hc] at hs
  cases hs

theorem plainSpaced_ofNat (n : Nat) : (ofNat n).PlainSpaced := by
  apply plainSpaced_of_unspaced
  intro c hc
  have hdigit : c.isDigit := Nat.isDigit_of_mem_toDigits (by decide) (by decide) hc
  apply isSpace_of_isIdentifierChar
  simp [isIdentifierChar, Char.isAlphanum, hdigit]

theorem plainSpaced_commaSeparated {texts : List Text} (h : ∀ text ∈ texts, text.PlainSpaced) :
    (commaSeparated texts).PlainSpaced := by
  unfold commaSeparated
  induction texts with
  | nil => exact plainSpaced_nil
  | cons first texts ih =>
    obtain ⟨hfirst, hothers⟩ := List.forall_mem_cons.mp h
    cases texts with
    | nil => simpa using hfirst
    | cons second texts =>
      have hmark : PlainSpaced [',', ' '] := by decide
      rw [List.intercalate_cons_cons]
      exact plainSpaced_between hfirst hmark (ih hothers)

end Text

namespace Fault

/-- What the message of a fault and the list of what was expected take over from elsewhere. -/
def pieces : Fault → List Text
  | missingValue key | textAfterQuote key | repeatedKey key => [key]
  | openQuote key mark => [key, [mark]]
  | noProgress rule => [rule]
  | _ => []

def QuotesUnspaced (fault : Fault) : Prop := ∀ piece ∈ fault.pieces, ∀ c ∈ piece, isSpace c = false

variable {fault : Fault}

theorem quotesUnspaced_of_pieces (h : fault.pieces = []) : fault.QuotesUnspaced := by
  intro piece hpiece
  rw [h] at hpiece
  cases hpiece

theorem quotesUnspaced_of_code (hp : fault.code ≠ .parameter) (hn : fault.code ≠ .noProgress) :
    fault.QuotesUnspaced := by
  apply quotesUnspaced_of_pieces
  cases fault with
  | missingValue | textAfterQuote | repeatedKey | openQuote => exact (hp rfl).elim
  | noProgress => exact (hn rfl).elim
  | _ => rfl

theorem message_plainSpaced (h : fault.QuotesUnspaced) : fault.message.PlainSpaced := by
  have hpiece : ∀ piece ∈ fault.pieces, piece.PlainSpaced := by
    intro piece hpiece
    exact Text.plainSpaced_of_unspaced (h piece hpiece)
  cases fault with
  | missingValue key | noProgress key =>
    have hkey : key.PlainSpaced := hpiece key (by simp [pieces])
    apply Text.plainSpaced_between _ hkey
    · apply Text.plainSpaced_toList
      decide
    · apply Text.plainSpaced_toList
      decide
  | textAfterQuote key | repeatedKey key | openQuote key mark =>
    have hkey : key.PlainSpaced := hpiece key (by simp [pieces])
    apply Text.plainSpaced_between _ hkey
    · decide
    · apply Text.plainSpaced_toList
      decide
  | _ =>
    apply Text.plainSpaced_toList
    decide

theorem expected_plainSpaced (h : fault.QuotesUnspaced) :
    ∀ text ∈ fault.expected, text.PlainSpaced := by
  cases fault with
  | openQuote key mark =>
    intro text htext
    obtain rfl := List.mem_singleton.mp htext
    exact Text.plainSpaced_of_unspaced (h [mark] (by simp [pieces]))
  | missingValue key => exact List.forall_mem_singleton.mpr (by decide)
  | textAfterQuote key => exact List.forall_mem_singleton.mpr (by decide)
  | textInTagName form => exact List.forall_mem_singleton.mpr (by decide)
  | repeatedKey key | noProgress key => exact List.forall_mem_nil _
  | _ => decide +kernel

theorem complaint_format_plainSpaced (h : fault.QuotesUnspaced) (source : Text) (offset : Nat) :
    (fault.complaint source offset).format.PlainSpaced := by
  have hmessage := message_plainSpaced h
  have hexpected := expected_plainSpaced h
  have hquotes : ∀ text ∈ fault.expected.map fun piece => '\'' :: (piece ++ ['\'']),
      Text.PlainSpaced text := by
    intro text htext
    obtain ⟨piece, hpiece, rfl⟩ := List.mem_map.mp htext
    have hmark : Text.PlainSpaced ['\''] := by decide
    exact Text.plainSpaced_between hmark (hexpected piece hpiece) hmark
  have hlist := Text.plainSpaced_commaSeparated hquotes
  have hcolon : Text.PlainSpaced [':'] := by decide
  have hplace := Text.plainSpaced_between
    (Text.plainSpaced_ofNat (Place.ofOffset source offset).line) hcolon
    (Text.plainSpaced_ofNat (Place.ofOffset source offset).column)
  unfold Complaint.format
  apply Text.PlainSpaced.append
  · exact Text.plainSpaced_between hplace (by decide) hmessage
  · split
    · exact Text.plainSpaced_nil
    · exact Text.plainSpaced_between (by decide) hlist (by decide)

end Fault

namespace Recognizer

variable {key text : Text} {line : Line} {refusal : Refusal}

theorem assigned_quotesUnspaced (hk : ∀ c ∈ key, isSpace c = false)
    (h : assigned key text = .refused refusal) : refusal.fault.QuotesUnspaced := by
  have hkey : ∀ piece ∈ [key], ∀ c ∈ piece, isSpace c = false := List.forall_mem_singleton.mpr hk
  cases text with
  | nil =>
    obtain rfl := Outcome.refused.inj h
    exact hkey
  | cons mark rest =>
    simp only [assigned] at h
    split at h
    · obtain rfl := Outcome.refused.inj h
      exact hkey
    split at h
    next hmark =>
      split at h
      · obtain rfl := Outcome.refused.inj h
        intro piece hpiece
        rcases List.mem_pair.mp hpiece with rfl | rfl
        · exact hk
        · exact List.forall_mem_singleton.mpr (isSpace_of_mem_quotes hmark)
      split at h
      · cases h
      · obtain rfl := Outcome.refused.inj h
        exact hkey
    · cases h

theorem parameter_quotesUnspaced (h : parameter text = .refused refusal) :
    refusal.fault.QuotesUnspaced := by
  unfold parameter at h
  split at h
  · cases h
  dsimp only at h
  split at h
  · cases h
  next rest hafter =>
  split at h
  · obtain rfl := Outcome.refused.inj h
    exact Fault.quotesUnspaced_of_pieces rfl
  · have hkey : ∀ c ∈ text.takeWhile isKeyChar, isSpace c = false := by
      intro c hc
      exact isSpace_of_isKeyChar (List.mem_takeWhile_imp hc)
    cases ha : assigned (text.takeWhile isKeyChar) rest with
    | absent => simp [ha, Outcome.map, Outcome.shift] at h
    | matched => simp [ha, Outcome.map, Outcome.shift] at h
    | refused inner =>
      have hinner := assigned_quotesUnspaced hkey ha
      rw [ha] at h
      obtain rfl := Outcome.refused.inj h
      exact hinner

end Recognizer

theorem Entry.readAll_quotesUnspaced {seen : List Text} {text : Text} {refusal : Refusal}
    (h : readAll seen text = .error refusal) : refusal.fault.QuotesUnspaced := by
  fun_induction readAll seen text generalizing refusal with
  | case1 => cases h
  | case2 seen text space inner =>
    rename_i hp
    have hinner := Recognizer.parameter_quotesUnspaced hp
    obtain rfl := Except.error.inj h
    exact hinner
  | case3 seen text space entry size hp =>
    -- The key that is given again has been read, and a key holds no space.
    obtain ⟨token, rest, ht, -, -, -⟩ := Recognizer.parameter_sound hp
    have hkey : ∀ c ∈ entry.1, isSpace c = false := by
      cases ht with
      | flag hk => exact hk.unspaced
      | assigned hk hv => exact hk.unspaced
    obtain rfl := Except.error.inj h
    exact List.forall_mem_singleton.mpr hkey
  | case4 seen text space entry size hp hseen inner hr =>
    rename_i ih
    have hinner := ih hr
    obtain rfl := Except.error.inj h
    exact hinner
  | case5 => cases h

theorem Parameters.read_quotesUnspaced {text : Text} {refusal : Refusal}
    (h : read text = .error refusal) : refusal.fault.QuotesUnspaced := by
  cases hr : Entry.readAll [] text with
  | ok entries => simp [read, hr, Except.map] at h
  | error inner =>
    obtain rfl : inner = refusal := by simpa [read, hr, Except.map] using h
    exact Entry.readAll_quotesUnspaced hr

namespace Recognizer

variable {name body text : Text} {form : TagForm} {offset stop : Nat} {refusal : Refusal}

theorem tagBody_quotesUnspaced (h : tagBody form name body offset stop = .refused refusal) :
    refusal.fault.QuotesUnspaced := by
  unfold tagBody at h
  split at h
  · obtain rfl := Outcome.refused.inj h
    exact Fault.quotesUnspaced_of_pieces rfl
  split at h
  next inner hr =>
    have hinner := Parameters.read_quotesUnspaced hr
    obtain rfl := Outcome.refused.inj h
    exact hinner
  · cases h

theorem lineTag_quotesUnspaced (h : lineTag text = .refused refusal) :
    refusal.fault.QuotesUnspaced := by
  unfold lineTag at h
  split at h
  · cases h
  dsimp only at h
  split at h
  · obtain rfl := Outcome.refused.inj h
    dsimp only
    apply Fault.quotesUnspaced_of_pieces
    split
    · rfl
    · rfl
  · exact tagBody_quotesUnspaced h

theorem bracketTag_quotesUnspaced (h : bracketTag text = .refused refusal) :
    refusal.fault.QuotesUnspaced := by
  unfold bracketTag at h
  split at h
  · cases h
  split at h
  · cases h
  dsimp only at h
  split at h
  · obtain rfl := Outcome.refused.inj h
    exact Fault.quotesUnspaced_of_pieces rfl
  split at h
  · obtain rfl := Outcome.refused.inj h
    exact Fault.quotesUnspaced_of_pieces rfl
  · exact tagBody_quotesUnspaced h

end Recognizer

/-- Only the parameters of a tag are quoted, and other constructs are refused without them. -/
theorem Opening.quotesUnspaced {opening : Opening} {text : Text} {refusal : Refusal}
    (h : opening.rule.recognize text = .refused refusal) : refusal.fault.QuotesUnspaced := by
  have hcode := (code_mem h).1
  cases opening with
  | bracketTag => exact Recognizer.bracketTag_quotesUnspaced h
  | lineTag => exact Recognizer.lineTag_quotesUnspaced h
  | comment | prose => cases hcode
  | blockComment | label | cue =>
    rw [codes, List.mem_singleton] at hcode
    apply Fault.quotesUnspaced_of_code
    · rw [hcode]
      decide
    · rw [hcode]
      decide

theorem Code.name_plainSpaced (code : Code) : code.name.PlainSpaced := by
  cases code <;>
  · apply Text.plainSpaced_toList
    decide

theorem Code.exists_hint {code : Code} (h : code ≠ .unexpectedEnd) :
    ∃ hint, code.hint? = some hint ∧ hint.isEmpty = false ∧ hint.PlainSpaced := by
  cases code with
  | unexpectedEnd => exact (h rfl).elim
  | _ =>
    refine ⟨_, rfl, ?_, ?_⟩
    · apply Text.isEmpty_toList
      rfl
    · apply Text.plainSpaced_toList
      decide

theorem Fault.code_ne_unexpectedEnd (fault : Fault) : fault.code ≠ .unexpectedEnd := by
  cases fault with
  | textInTagName form => cases form <;> decide
  | _ => exact Code.noConfusion

theorem Diagnostic.format_eq {diagnostic : Diagnostic} {location : Location} {hint : Text}
    (hl : diagnostic.location = some location) (hh : diagnostic.hint = some hint)
    (hne : hint.isEmpty = false) :
    diagnostic.format = diagnostic.headline ++ '\n' :: (locationLine location ++
      '\n' :: hintLine hint) := by
  have hlines : diagnostic.lines = [diagnostic.headline, locationLine location, hintLine hint] := by
    simp only [lines, hl, hh, Option.toList_some, List.filter_cons, hne, Bool.not_false, if_true,
      List.filter_nil, List.map_cons, List.map_nil, List.singleton_append]
  rw [format, hlines, List.intercalate_cons_cons, List.intercalate_cons_cons,
    List.intercalate_singleton]
  simp only [List.append_assoc, List.singleton_append]

theorem Diagnostic.headline_plainSpaced {diagnostic : Diagnostic}
    (h : diagnostic.message.PlainSpaced) : diagnostic.headline.PlainSpaced := by
  have hword : diagnostic.severity.word.PlainSpaced := by
    cases diagnostic.severity <;> decide
  have hbracket : Text.PlainSpaced ['['] := by decide
  have hcolon : Text.PlainSpaced "]: ".toList := by decide
  have hname := Text.plainSpaced_between hword hbracket diagnostic.code.name_plainSpaced
  exact Text.plainSpaced_between hname hcolon h

/-- A failure is shown on three lines, and there is no other space on them than that of ASCII. -/
structure Failure.ShownPlainly (failure : Failure) (location : Location) (hint : Text) : Prop where
  location_eq : failure.diagnostic.location = some location
  hint_eq : failure.diagnostic.hint = some hint
  message_eq : failure.message =
    failure.diagnostic.headline ++ '\n' :: (Diagnostic.locationLine location ++
      '\n' :: Diagnostic.hintLine hint)
  headline_plain : failure.diagnostic.headline.PlainSpaced
  location_plain : (Diagnostic.locationLine location).PlainSpaced
  hint_plain : (Diagnostic.hintLine hint).PlainSpaced

theorem Location.locationLine_plainSpaced (location : Location) :
    (Diagnostic.locationLine location).PlainSpaced := by
  have hlead : Text.PlainSpaced "  --> line ".toList := by
    apply Text.plainSpaced_toList
    decide
  have hmiddle : Text.PlainSpaced ", column ".toList := by
    apply Text.plainSpaced_toList
    decide
  have hline := Text.plainSpaced_between hlead (Text.plainSpaced_ofNat location.line) hmiddle
  exact hline.append (Text.plainSpaced_ofNat location.column)

theorem Fault.failure_shownPlainly {fault : Fault} (h : fault.QuotesUnspaced) (source : Text)
    (offset : Nat) : ∃ hint, (Failure.ofComplaint (fault.complaint source offset)).ShownPlainly
      (.ofOffset source offset) hint := by
  obtain ⟨hint, hhint, hne, hplain⟩ := Code.exists_hint fault.code_ne_unexpectedEnd
  refine ⟨hint, ?_⟩
  constructor
  · rfl
  · exact hhint
  · exact Diagnostic.format_eq rfl hhint hne
  · exact Diagnostic.headline_plainSpaced (message_plainSpaced h)
  · exact Location.locationLine_plainSpaced _
  · have hlead : Text.PlainSpaced "  = help: ".toList := by
      apply Text.plainSpaced_toList
      decide
    exact hlead.append hplain

theorem Event.rejected_plainSpaced {fault : Fault} (h : fault.QuotesUnspaced) (source : Text)
    (offset : Nat) : (Event.rejected (fault.complaint source offset)).message.PlainSpaced := by
  have hlead : Text.PlainSpaced "Rejected scenario source: ".toList := by
    apply Text.plainSpaced_toList
    decide
  exact hlead.append (Fault.complaint_format_plainSpaced h source offset)

namespace Reader

variable {source : Text} {failure : Failure}

/-- No source puts a line break, or any space but that of ASCII, into what is said of it when it is
rejected. -/
theorem parse_refused_plain {limit : Int}
    (h : (Reader.mk limit Rule.standard).parse source = .error (.malformed failure)) :
    failure.diagnostic.message.PlainSpaced ∧
    (∃ complaint, failure = .ofComplaint complaint ∧
      ((Reader.mk limit Rule.standard).read source).events =
        [.started source.length, .rejected complaint] ∧
      (Event.rejected complaint).message.PlainSpaced) ∧
    ∃ location hint, failure.ShownPlainly location hint := by
  obtain ⟨rounds, lines, refusal, hrun, hread, rfl⟩ := run_of_malformed h
  obtain ⟨start, inner, -, hstart, hstep, rfl⟩ := (hrun.starts .zero).2 refusal rfl
  have hquotes : inner.fault.QuotesUnspaced :=
    Opening.quotesUnspaced (Step.recognize_of_error (Text.drop_ne_nil hstart) hstep)
  have hshown := Fault.failure_shownPlainly hquotes source (start + inner.offset)
  refine ⟨Fault.message_plainSpaced hquotes, ⟨_, rfl, ?_, ?_⟩, _, hshown⟩
  · rw [hread]
    rfl
  · exact Event.rejected_plainSpaced hquotes _ _

theorem parse_refused_plain_repeatedKey :
    let source := "[t k\nk\u2028]".toList
    let failure := Failure.ofComplaint ((Fault.repeatedKey ['k']).complaint source 5)
    (Reader.mk 0 Rule.standard).parse source = .error (.malformed failure) ∧
      failure.diagnostic.message.PlainSpaced ∧
      ∃ location hint, failure.ShownPlainly location hint := by
  intro source failure
  have h : (Reader.mk 0 Rule.standard).parse source = .error (.malformed failure) := by
    decide +kernel
  obtain ⟨hmessage, -, hshown⟩ := parse_refused_plain h
  exact ⟨h, hmessage, hshown⟩

end Reader

end Playscript
