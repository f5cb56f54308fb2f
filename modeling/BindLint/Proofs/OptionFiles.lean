import BindLint.Options.File
import BindLint.Proofs.Paired
import BindLint.Proofs.Resolved

/-!
# What can happen to an option file

Whatever is wrong with an option file should be told to the user as an error of the configuration.
That is so for a name with an unknown ending, for a file that cannot be opened, for a text that is
not of its format and for one that holds no object where the options should be.

There are four things that are not foreseen: a path that cannot even be asked for, bytes that are no
text, a document that its reader gives up on for another reason than its form, and a project file in
which the table of all tools is no table.  What happens then is no error of the configuration.

## Main definitions

* `Legible` — a file of a format, with its text.
* `Unforeseen` — what is not foreseen, with the error that comes out.

## Main results

* `optionValue_eq_error_iff` — when a text gives no value.
* `readLabelled_unforeseen_iff` — the errors that are none of the configuration.
* `option_file_faults` — **reading gives an object or an error of the configuration exactly if
  nothing unforeseen is the case.**
-/

namespace BindLint

/-- A file of a format that holds a text. -/
structure Legible (t : FileTree) (p : Path) (format : OptionFormat) (text : String) : Prop where
  format : OptionFormat.ofPath? p = some format
  read : t.read p = .ok (Utf8.encode text)

/-- The value of a text of a format. -/
def OptionFormat.parse (format : OptionFormat) (text : String) : Except DocumentError Value :=
  match format with
  | .toml => (Toml.parse text).map .obj
  | .json => Json.parse text

/-- What is not foreseen about a file, and the error that it gives. -/
inductive Unforeseen (t : FileTree) (p label : Path) : OptionFileError → Prop where
  /-- The path holds a null character. -/
  | unnameable {format : OptionFormat} (hformat : OptionFormat.ofPath? p = some format)
      (hnull : p.hasNull = true) : Unforeseen t p label .unnameable
  /-- The file is no text. -/
  | undecodable {format : OptionFormat} {bytes : List UInt8} {fault : Utf8.Fault}
      (hformat : OptionFormat.ofPath? p = some format) (hread : t.read p = .ok bytes)
      (hdecode : Utf8.decode bytes = .error fault) : Unforeseen t p label (.undecodable fault)
  /-- The text is not refused for its form, but cannot be read all the same: a number in it has too
  many digits, or its parts are nested too deep for the calls that are left (`nestingLimit`). -/
  | unreadable {format : OptionFormat} {text : String} {e : DocumentError}
      (h : Legible t p format text) (hparse : format.parse text = .error e)
      (he : e ≠ .malformed) : Unforeseen t p label (.ofDocument label format e)
  /-- In a project file there is something else in place of the table of all tools. -/
  | notTable {text : String} {ms : List (String × Value)} {v : Value}
      (h : Legible t p .toml text) (hproject : label.name = projectFile)
      (hparse : Toml.parse text = .ok ms) (htool : Value.lookup "tool" ms = some v)
      (hv : v.isObject = false) : Unforeseen t p label (.notTable v.fullTypeName)

variable {t : FileTree} {p label : Path} {format : OptionFormat} {text : String}
  {e : OptionFileError}

/-! ### The text -/

theorem OptionFileError.isConfiguration_ofDocument {d : DocumentError} :
    (ofDocument label format d).isConfiguration = false ↔ d ≠ .malformed := by
  cases d with
  | malformed => exact iff_of_false nofun (fun h => h rfl)
  | _ => exact iff_of_true rfl nofun

theorem projectOptions_eq_error_iff {ms : List (String × Value)} (hms : PairedMembers ms) :
    projectOptions ms = .error e ↔
      ∃ v, Value.lookup "tool" ms = some v ∧ v.isObject = false ∧ e = .notTable v.fullTypeName := by
  unfold projectOptions
  split
  · next hnone =>
    refine iff_of_false nofun ?_
    rintro ⟨v, hv, -⟩
    cases hnone.symm.trans hv
  · next tools htools =>
    refine iff_of_false nofun ?_
    rintro ⟨v, hv, hobject, -⟩
    cases htools.symm.trans hv
    cases hobject
  · next v hnot hv =>
    have hobject : v.isObject = false := by
      cases hms.of_lookup hv with
      | obj h => exact absurd rfl (hnot _)
      | _ => rfl
    constructor
    · rintro ⟨⟩
      exact ⟨v, hv, hobject, rfl⟩
    · rintro ⟨w, hw, -, rfl⟩
      cases hv.symm.trans hw
      rfl

/-- A text gives no value if its reader does not, or if it is that of a project file in which the
table of all tools is none. -/
theorem optionValue_eq_error_iff :
    optionValue label format text = .error e ↔
      (∃ d, format.parse text = .error d ∧ e = .ofDocument label format d) ∨
        ∃ ms v, format = .toml ∧ label.name = projectFile ∧ Toml.parse text = .ok ms ∧
          Value.lookup "tool" ms = some v ∧ v.isObject = false ∧ e = .notTable v.fullTypeName := by
  cases format with
  | json =>
    rw [optionValue, OptionFormat.parse]
    cases Json.parse text with
    | ok v =>
      constructor
      · intro h
        cases h
      · rintro (⟨d, hd, -⟩ | ⟨ms, v, hformat, -⟩)
        · cases hd
        · cases hformat
    | error d =>
      constructor
      · intro h
        cases h
        exact Or.inl ⟨d, rfl, rfl⟩
      · rintro (⟨d', hd, rfl⟩ | ⟨ms, v, hformat, -⟩)
        · cases hd
          rfl
        · cases hformat
  | toml =>
    rw [optionValue, OptionFormat.parse]
    cases hparse : Toml.parse text with
    | error d =>
      constructor
      · intro h
        cases h
        exact Or.inl ⟨d, rfl, rfl⟩
      · rintro (⟨d', hd, rfl⟩ | ⟨ms, v, -, -, hms, -⟩)
        · cases hd
          rfl
        · cases hms
    | ok ms =>
      have hproject := projectOptions_eq_error_iff (e := e) (Toml.pairedMembers_of_parse hparse)
      dsimp only
      split
      · next hname =>
        rw [hproject]
        constructor
        · rintro ⟨v, htool, hobject, he⟩
          exact Or.inr ⟨ms, v, rfl, hname, rfl, htool, hobject, he⟩
        · rintro (⟨d, hd, -⟩ | ⟨ms', v, -, -, hms, htool, hobject, he⟩)
          · cases hd
          · cases hms
            exact ⟨v, htool, hobject, he⟩
      · next hname =>
        constructor
        · intro h
          cases h
        · rintro (⟨d, hd, -⟩ | ⟨ms', v, -, hname', -⟩)
          · cases hd
          · exact absurd hname' hname

/-! ### The file -/

theorem hasNull_eq_false_of_read {bytes : List UInt8} (h : t.read p = .ok bytes) :
    p.hasNull = false := by
  cases hnull : p.hasNull with
  | false => rfl
  | true =>
    rw [FileTree.read, FileTree.locate, if_pos hnull] at h
    cases h

/-- A file of a known format gives what its bytes give. -/
theorem readLabelled_of_read {bytes : List UInt8} (hformat : OptionFormat.ofPath? p = some format)
    (hread : t.read p = .ok bytes) :
    readLabelled t p label =
      ((Utf8.decode bytes).mapError .undecodable >>= optionValue label format) >>=
        asObject label := by
  rw [readLabelled, hformat]
  dsimp only
  rw [hasNull_eq_false_of_read hread, if_neg Bool.false_ne_true, hread]
  dsimp only
  cases Utf8.decode bytes <;> rfl

/-- A legible file gives what its text gives. -/
theorem readLabelled_of_legible (h : Legible t p format text) :
    readLabelled t p label = optionValue label format text >>= asObject label := by
  rw [readLabelled_of_read h.format h.read, Utf8.decode_encode]
  rfl

theorem asObject_eq_error_iff {v : Value} :
    asObject label v = .error e ↔ v.isObject = false ∧ e = .notObject label := by
  cases v with
  | obj ms => exact iff_of_false nofun nofun
  | misnamed ms strays => exact iff_of_false nofun nofun
  | _ =>
    constructor
    · rintro ⟨⟩
      exact ⟨rfl, rfl⟩
    · rintro ⟨-, rfl⟩
      rfl

theorem isObject_of_asObject {v v' : Value} (h : asObject label v = .ok v') :
    v'.isObject = true := by
  cases v with
  | obj ms =>
    cases h
    rfl
  | misnamed ms strays =>
    cases h
    rfl
  | _ => cases h

theorem isObject_of_readLabelled {v : Value} (h : readLabelled t p label = .ok v) :
    v.isObject = true := by
  unfold readLabelled at h
  split at h
  · cases h
  · split at h
    · cases h
    · split at h
      · cases h
      · split at h
        · cases h
        · obtain ⟨w, -, hw⟩ := exists_of_bind_ok h
          exact isObject_of_asObject hw

theorem unforeseen_of_readLabelled (h : readLabelled t p label = .error e)
    (he : e.isConfiguration = false) : Unforeseen t p label e := by
  unfold readLabelled at h
  split at h
  · cases h
    cases he
  · next format hformat =>
    split at h
    · next hnull =>
      cases h
      exact .unnameable hformat hnull
    · split at h
      · cases h
        cases he
      · next bytes hread =>
        split at h
        · next hdecode =>
          cases h
          exact .undecodable hformat hread hdecode
        · next text hdecode =>
          have hlegible : Legible t p format text :=
            ⟨hformat, by rw [hread, Utf8.decode_eq_ok_iff.1 hdecode]⟩
          rcases bind_eq_error_iff.1 h with hvalue | ⟨v, -, hobject⟩
          · rcases optionValue_eq_error_iff.1 hvalue with
              ⟨d, hd, rfl⟩ | ⟨ms, v, rfl, hname, hms, htool, hv, rfl⟩
            · exact .unreadable hlegible hd (OptionFileError.isConfiguration_ofDocument.1 he)
            · exact .notTable hlegible hname hms htool hv
          · obtain ⟨-, rfl⟩ := asObject_eq_error_iff.1 hobject
            cases he

theorem readLabelled_of_unforeseen (h : Unforeseen t p label e) :
    readLabelled t p label = .error e ∧ e.isConfiguration = false := by
  cases h with
  | unnameable hformat hnull =>
    rw [readLabelled, hformat]
    dsimp only
    rw [if_pos hnull]
    exact ⟨rfl, rfl⟩
  | undecodable hformat hread hdecode =>
    rw [readLabelled_of_read hformat hread, hdecode]
    exact ⟨rfl, rfl⟩
  | unreadable hlegible hparse he =>
    rw [readLabelled_of_legible hlegible, bind_eq_error_iff, optionValue_eq_error_iff]
    exact ⟨Or.inl (Or.inl ⟨_, hparse, rfl⟩), OptionFileError.isConfiguration_ofDocument.2 he⟩
  | notTable hlegible hproject hparse htool hv =>
    rw [readLabelled_of_legible hlegible, bind_eq_error_iff, optionValue_eq_error_iff]
    exact ⟨Or.inl (Or.inr ⟨_, _, rfl, hproject, hparse, htool, hv, rfl⟩), rfl⟩

theorem readLabelled_unforeseen_iff :
    readLabelled t p label = .error e ∧ e.isConfiguration = false ↔ Unforeseen t p label e :=
  ⟨fun h => unforeseen_of_readLabelled h.1 h.2, readLabelled_of_unforeseen⟩

/-- **Reading an option file gives an object or an error of the configuration exactly if nothing
unforeseen is the case.**  If something is, the error that comes out is the one that belongs to
it. -/
theorem option_file_faults (t : FileTree) (p : Path) :
    ((∃ v, readOptionFile t p = .ok v ∧ v.isObject = true) ∨
          (∃ e, readOptionFile t p = .error e ∧ e.isConfiguration = true) ↔
        ∀ e, ¬Unforeseen t p p e) ∧
      ∀ e, readOptionFile t p = .error e ∧ e.isConfiguration = false ↔ Unforeseen t p p e := by
  refine ⟨?_, fun e => readLabelled_unforeseen_iff⟩
  unfold readOptionFile
  cases hread : readLabelled t p p with
  | ok v =>
    refine iff_of_true (Or.inl ⟨v, rfl, isObject_of_readLabelled hread⟩) fun e he => ?_
    cases hread.symm.trans (readLabelled_of_unforeseen he).1
  | error e =>
    constructor
    · rintro (⟨v, hv, -⟩ | ⟨e', he', hconf⟩) e'' hunforeseen
      · cases hv
      · obtain ⟨herror, hnot⟩ := readLabelled_of_unforeseen hunforeseen
        cases he'
        cases hread.symm.trans herror
        rw [hconf] at hnot
        cases hnot
    · intro hnone
      refine Or.inr ⟨e, rfl, ?_⟩
      by_contra hnot
      rw [Bool.not_eq_true] at hnot
      exact hnone e (unforeseen_of_readLabelled hread hnot)

/-- A project file with a text in place of the table of all tools, and a file that is no text. -/
def strayTree : FileTree where
  base := ⟨1, ["w"]⟩
  files := [([projectFile], Utf8.encode "tool = \"x\"\n"), (["o.json"], [0xFF])]
  directories := []

/-- Neither file gives options, nor does a path with a null character, and none of the three errors
is one of the configuration. -/
theorem stray_files_are_not_foreseen :
    readOptionFile strayTree ⟨0, [projectFile]⟩ = .error (.notTable "str") ∧
      readOptionFile strayTree ⟨0, ["o.json"]⟩ = .error (.undecodable ⟨0xFF, 0, 1, .startByte⟩) ∧
      readOptionFile strayTree ⟨0, ["o\x00.json"]⟩ = .error .unnameable ∧
      ∀ e ∈ [.notTable "str", .undecodable ⟨0xFF, 0, 1, .startByte⟩, .unnameable],
        OptionFileError.isConfiguration e = false := by
  have hread : strayTree.read ⟨0, [projectFile]⟩ = .ok (Utf8.encode "tool = \"x\"\n") := rfl
  have hparse : Toml.parse "tool = \"x\"\n" = .ok [("tool", .str "x")] := by
    unfold Toml.parse Toml.Document.statements Toml.Document.statement Toml.pair Toml.value
    rfl
  refine ⟨?_, ?_, ?_, ?_⟩
  · exact (readLabelled_of_unforeseen (.notTable ⟨rfl, hread⟩ rfl hparse rfl rfl)).1
  · rfl
  · rfl
  · decide

end BindLint
