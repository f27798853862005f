import PipeLang.Command.Outcome
import PipeLang.Proofs.Session.Locations
import PipeLang.Proofs.Token.Tiling

/-!
# Commands that agree

The three commands on a source file read it in ways of their own : `tokenize` goes on behind
errors, `parse` stops at the first one, and `run` is a session. They agree (`Agreement`,
`Command.agree`) : on which texts are programs, on which error is the first, and on how it is
shown. What `run` reports of a program is an error of its execution.

A run may also go to an output that fails (`runInto`), of which `run` to an output that
takes everything is one case.
-/

namespace PipeLang

/-! ## Texts that are no programs -/

/-- The text cannot be cut into tokens, or its tokens are no program. -/
def Malformed (source : String) : Prop :=
  (∃ e, tokens? source = .error e) ∨ ∃ ts e, tokens? source = .ok ts ∧ parse ts = .error e

/-- A text that is no program has a first error. -/
theorem malformed_iff {source : String} :
    Malformed source ↔ ∃ d, Program.ofSource source = .error d := by
  cases hts : tokens? source with
  | error e =>
    rw [Program.ofSource_of_error hts]
    exact ⟨fun _ => ⟨_, rfl⟩, fun _ => .inl ⟨e, hts⟩⟩
  | ok ts =>
    rw [Program.ofSource_of_ok hts]
    constructor
    · rintro (⟨e, he⟩ | ⟨ts', e, hts', he⟩)
      · cases hts.symm.trans he
      · obtain rfl := Except.ok.inj (hts.symm.trans hts')
        rw [he]
        exact ⟨_, rfl⟩
    · rintro ⟨d, hd⟩
      cases hparse : parse ts with
      | error e => exact .inr ⟨ts, e, hts, hparse⟩
      | ok p =>
        rw [hparse] at hd
        cases hd

/-! ## Streams -/

/-- A line of a stream. -/
def lineBytes (text : String) : ByteArray := (text ++ "\n").toUTF8

theorem lineBytes_ne_empty (text : String) : lineBytes text ≠ .empty := by
  intro h
  have hsize := congrArg ByteArray.size h
  simp [lineBytes, String.toByteArray_append] at hsize

theorem toUTF8_unlines_cons (text : String) (texts : List String) :
    (unlines (text :: texts)).toUTF8 = lineBytes text ++ (unlines texts).toUTF8 := by
  simp [unlines, lineBytes, String.toByteArray_append, String.join_cons]

/-- What a loop over items writes to two streams : a line for each item, in their order. -/
inductive Listed : List Item → ByteArray → ByteArray → Prop where
  | done : Listed [] .empty .empty
  | token {t : Token} {is : List Item} {out err : ByteArray} : Listed is out err →
    Listed (.token t :: is) (lineBytes t.listing ++ out) err
  | error {e : LexicalError} {is : List Item} {out err : ByteArray} : Listed is out err →
    Listed (.error e :: is) out (lineBytes e.diagnostic.render ++ err)

theorem listed_unlines (is : List Item) :
    Listed is (unlines (is.filterMap Item.listing?)).toUTF8
      (unlines ((is.filterMap Item.diagnostic?).map Diagnostic.render)).toUTF8 := by
  induction is with
  | nil => exact .done
  | cons i is ih =>
    cases i with
    | token t =>
      have hlisting : (Item.token t :: is).filterMap Item.listing? =
          t.listing :: is.filterMap Item.listing? := rfl
      rw [hlisting, toUTF8_unlines_cons]
      exact .token ih
    | error e =>
      have herrors : (Item.error e :: is).filterMap Item.diagnostic? =
          e.diagnostic :: is.filterMap Item.diagnostic? := rfl
      rw [herrors, List.map_cons, toUTF8_unlines_cons]
      exact .error ih

/-- Behind tokens only, an error is the first line. -/
theorem Listed.first_error {ts : List Token} {e : LexicalError} {is : List Item}
    {out err : ByteArray} (h : Listed (ts.map .token ++ .error e :: is) out err) :
    ∃ rest, err = lineBytes e.diagnostic.render ++ rest := by
  induction ts generalizing out with
  | nil =>
    cases h with
    | @error _ _ _ rest => exact ⟨rest, rfl⟩
  | cons t ts ih =>
    cases h with
    | token h => exact ih h

/-! ## One command -/

theorem filterMap_diagnostic?_eq_nil_iff {is : List Item} :
    is.filterMap Item.diagnostic? = [] ↔ ¬ ∃ e, .error e ∈ is := by
  rw [List.filterMap_eq_nil_iff]
  constructor
  · rintro h ⟨e, he⟩
    cases h _ he
  · intro h i hi
    cases i with
    | token t => rfl
    | error e => exact absurd ⟨e, hi⟩ h

theorem tokenizeSource_code (source : String) :
    (tokenizeSource source).code = malformed ∧ (∃ e, .error e ∈ items source) ∨
      (tokenizeSource source).code = 0 ∧ ¬ ∃ e, .error e ∈ items source := by
  rw [← filterMap_diagnostic?_eq_nil_iff]
  by_cases h : (items source).filterMap Item.diagnostic? = []
  · exact .inr ⟨by simp [tokenizeSource, h], h⟩
  · refine .inl ⟨by simp [tokenizeSource, h], ?_⟩
    rwa [filterMap_diagnostic?_eq_nil_iff, not_not] at h

/-- There is an error among the items exactly when there is a first one. -/
theorem exists_error_mem_iff {source : String} :
    (∃ e, .error e ∈ items source) ↔ ∃ e, tokens? source = .error e := by
  constructor
  · rintro ⟨e, he⟩
    cases hts : tokens? source with
    | error e' => exact ⟨e', rfl⟩
    | ok ts =>
      rw [Lexer.collect_eq_ok_iff.1 hts] at he
      obtain ⟨t, -, ht⟩ := List.mem_map.1 he
      cases ht
  · rintro ⟨e, he⟩
    exact ⟨e, Lexer.error_mem_of_collect he⟩

theorem parseSource_of_error {source : String} {d : Diagnostic} (json : Bool)
    (h : Program.ofSource source = .error d) :
    parseSource json source = .failure malformed d.render := by
  rw [parseSource, h]

theorem parseSource_of_ok {source : String} {p : Program} (json : Bool)
    (h : Program.ofSource source = .ok p) :
    (parseSource json source).code = 0 ∧ (parseSource json source).stderr = .empty := by
  rw [parseSource, h]
  exact ⟨rfl, rfl⟩

/-- Run the program in a batch session, with room for so much output. -/
def runInto (room : Option Nat) (flushes : Bool) (source : String) : Outcome :=
  let (status, s) := (Session.new .batch (.ofRoom room flushes) .unlimited).run source
  let code :=
    match status with
    | .proceed => 0
    | .halt code => code
  ⟨code, s.interpreter.out.written, s.diagnostics.written⟩

/-- There is room for all the output of `run`. -/
theorem runSource_eq (source : String) : runSource source = runInto none true source := rfl

section

variable {source : String} {room : Option Nat} {flushes : Bool}

/-- What a run answers to its first error, or to none. -/
theorem runInto_eq (room : Option Nat) (flushes : Bool) (source : String) :
    let s := Session.new .batch (.ofRoom room flushes) .unlimited
    runInto room flushes source =
      ⟨if (s.error? source).isSome then 1 else 0, (s.interpreterAfter source).out.written,
        Session.reported (s.error? source)⟩ := by
  intro s
  have hstderr (bytes : ByteArray) : (Sink.unlimited.write bytes).written = bytes := by
    simp [Sink.write, Sink.unlimited]
  unfold runInto
  rw [Session.run_eq]
  change Outcome.mk (match Session.status .batch (s.error? source) with
    | .proceed => 0
    | .halt code => code) _ (Sink.unlimited.write _).written = _
  rw [hstderr]
  cases s.error? source <;> rfl

theorem runInto_of_error {d : Diagnostic} (h : Program.ofSource source = .error d) :
    runInto room flushes source = .failure 1 d.render := by
  rw [runInto_eq, Session.error?_of_error _ h, Session.interpreterAfter_of_error _ h]
  rfl

/-- The error is one of execution. -/
def Diagnostic.OfExecution : Diagnostic → Prop
  | runtime _ _ | io _ => True
  | lexical _ _ | syntactic _ _ => False

theorem Fault.ofExecution (f : Fault) : f.diagnostic.OfExecution := by
  cases f <;> trivial

/-- A run of a program fails with a fault of the program, or not at all. -/
theorem runInto_of_ok {p : Program} (h : Program.ofSource source = .ok p) :
    ((runInto room flushes source).code = 0 ∧ (runInto room flushes source).stderr = .empty) ∨
      (runInto room flushes source).code = 1 ∧
        ∃ f i, Interpreter.runFresh p (.new (.ofRoom room flushes)) = .error f i ∧
          (runInto room flushes source).stderr = lineBytes f.diagnostic.render := by
  have herror : (Session.new .batch (.ofRoom room flushes) .unlimited).error? source =
      (Interpreter.runFresh p).failure? (.new (.ofRoom room flushes)) := Session.error?_of_ok _ h
  rw [runInto_eq]
  cases hrun : Interpreter.runFresh p (.new (.ofRoom room flushes)) with
  | ok u i =>
    rw [Run.failure?, hrun] at herror
    rw [herror]
    exact .inl ⟨rfl, rfl⟩
  | error f i =>
    rw [Run.failure?, hrun] at herror
    rw [herror]
    exact .inr ⟨rfl, f, i, rfl, rfl⟩

end

/-! ## Agreement -/

/-- The commands agree on a source text, when `run` has so much room for its output. -/
structure Agreement (source : String) (room : Option Nat) (flushes : Bool) (tokenize : Outcome)
    (parse : Bool → Outcome) (run : Outcome) : Prop where
  /-- Tokens are on one stream and errors on the other, in the order of the text. -/
  listed : Listed (items source) tokenize.stdout tokenize.stderr
  tokenize_code : tokenize.code = malformed ∧ (∃ e, .error e ∈ items source) ∨
    tokenize.code = 0 ∧ ¬ ∃ e, .error e ∈ items source
  parse_code : ∀ json, (parse json).code = malformed ∧ Malformed source ∨
    (parse json).code = 0 ∧ ¬ Malformed source
  run_code : run.code = 1 ∨ run.code = 0
  /-- The first error is all that is shown of a text that is no program. -/
  rejected : Malformed source → ∃ d, Program.ofSource source = .error d ∧
    (∀ json, (parse json).stdout = .empty ∧ (parse json).stderr = lineBytes d.render) ∧
    run.code = 1 ∧ run.stdout = .empty ∧ run.stderr = lineBytes d.render
  /-- Nothing else is shown in this way. -/
  run_rejected : ∀ json, run.code = 1 ∧ run.stdout = .empty ∧ run.stderr = (parse json).stderr ↔
    Malformed source
  /-- The first error among the items is the error of the text. -/
  first : tokenize.code = malformed → ∃ (e : LexicalError) (rest : ByteArray),
    Program.ofSource source = .error e.diagnostic ∧
    tokenize.stderr = lineBytes e.diagnostic.render ++ rest ∧
    ∀ json, (parse json).stderr = lineBytes e.diagnostic.render
  /-- A program fails with a fault of its execution. -/
  run_failed : ∀ json, (parse json).code = 0 → run.code = 1 → ∃ p f i,
    Program.ofSource source = .ok p ∧
    Interpreter.runFresh p (.new (.ofRoom room flushes)) = .error f i ∧
    f.diagnostic.OfExecution ∧ run.stderr = lineBytes f.diagnostic.render

theorem agreement (room : Option Nat) (flushes : Bool) (source : String) :
    Agreement source room flushes (tokenizeSource source) (fun json => parseSource json source)
      (runInto room flushes source) where
  listed := listed_unlines (items source)
  tokenize_code := tokenizeSource_code source
  parse_code json := by
    rw [malformed_iff]
    cases hsource : Program.ofSource source with
    | error d => exact .inl ⟨by rw [parseSource_of_error json hsource]; rfl, d, rfl⟩
    | ok p => exact .inr ⟨(parseSource_of_ok json hsource).1, by simp⟩
  run_code := by
    cases hsource : Program.ofSource source with
    | error d => exact .inl (by rw [runInto_of_error hsource]; rfl)
    | ok p =>
      obtain ⟨hcode, -⟩ | ⟨hcode, -⟩ := runInto_of_ok hsource
      · exact .inr hcode
      · exact .inl hcode
  rejected h := by
    obtain ⟨d, hd⟩ := malformed_iff.1 h
    refine ⟨d, hd, fun json => ?_, ?_⟩
    · rw [parseSource_of_error json hd]
      exact ⟨rfl, rfl⟩
    · rw [runInto_of_error hd]
      exact ⟨rfl, rfl, rfl⟩
  run_rejected json := by
    rw [malformed_iff]
    cases hsource : Program.ofSource source with
    | error d =>
      rw [parseSource_of_error json hsource, runInto_of_error hsource]
      exact ⟨fun _ => ⟨d, rfl⟩, fun _ => ⟨rfl, rfl, rfl⟩⟩
    | ok p =>
      refine ⟨fun ⟨hcode, _, hstderr⟩ => ?_, fun ⟨d, hd⟩ => nomatch hd⟩
      rw [(parseSource_of_ok json hsource).2] at hstderr
      obtain ⟨hzero, -⟩ | ⟨-, f, i, -, hline⟩ := runInto_of_ok hsource
      · cases hcode.symm.trans hzero
      · exact absurd (hline.symm.trans hstderr) (lineBytes_ne_empty _)
  first h := by
    obtain ⟨-, herror⟩ | ⟨hzero, -⟩ := tokenizeSource_code source
    · obtain ⟨e, he⟩ := exists_error_mem_iff.1 herror
      have hsource := Program.ofSource_of_error he
      obtain ⟨ts, is, hitems⟩ := Lexer.collect_eq_error_iff.1 he
      have hlisted := listed_unlines (items source)
      rw [hitems] at hlisted
      obtain ⟨rest, hrest⟩ := hlisted.first_error
      rw [← hitems] at hrest
      refine ⟨e, rest, hsource, hrest, fun json => ?_⟩
      rw [parseSource_of_error json hsource]
      rfl
    · cases hzero.symm.trans h
  run_failed json hparse hrun := by
    cases hsource : Program.ofSource source with
    | error d =>
      rw [parseSource_of_error json hsource] at hparse
      cases hparse
    | ok p =>
      obtain ⟨hzero, -⟩ | ⟨-, f, i, hfault, hline⟩ := runInto_of_ok hsource
      · cases hrun.symm.trans hzero
      · exact ⟨p, f, i, rfl, hfault, f.ofExecution, hline⟩

/-! ## Files -/

/-- A file with the right extension that holds a text is read. -/
theorem onFile_eq {read : String → Except FileError ByteArray} {path source : String}
    {bytes : ByteArray} (hextension : Path.extension? path = some sourceExtension)
    (hread : read path = .ok bytes) (htext : String.fromUTF8? bytes = some source)
    (command : String → Outcome) : onFile read path command = command source := by
  have hdecode : (do FileError.decode (← read path)) = .ok source := by
    rw [hread]
    change FileError.decode bytes = .ok source
    rw [FileError.decode, htext]
  rw [onFile, readSource, if_neg (by simp [hextension]), hdecode]

/-- On a source file, the three commands agree, and so they do when the output of `run` has
little room or cannot be flushed. -/
theorem Command.agree {read : String → Except FileError ByteArray} {path source : String}
    {bytes : ByteArray} (hextension : Path.extension? path = some sourceExtension)
    (hread : read path = .ok bytes) (htext : String.fromUTF8? bytes = some source)
    (stdin : ByteArray) :
    let answer (c : Command) := c.outcome read stdin
    Agreement source none true (answer (.tokenize path)) (fun json => answer (.parse path json))
        (answer (.run path)) ∧
      ∀ room flushes, Agreement source room flushes (answer (.tokenize path))
        (fun json => answer (.parse path json)) (runInto room flushes source) := by
  intro answer
  have htokenize : answer (.tokenize path) = tokenizeSource source :=
    onFile_eq hextension hread htext _
  have hparse : (fun json => answer (.parse path json)) = fun json => parseSource json source :=
    funext fun json => onFile_eq hextension hread htext _
  have hrun : answer (.run path) = runSource source := onFile_eq hextension hread htext _
  rw [htokenize, hparse, hrun, runSource_eq]
  exact ⟨agreement none true source, fun room flushes => agreement room flushes source⟩

/-- A text with three errors, the last one a string that is never closed. -/
theorem Command.agree_on_errors :
    let path := "dir/x.mad"
    let source := "print @;\nlet $ x \"y"
    let read (_ : String) : Except FileError ByteArray := .ok source.toUTF8
    let answer (c : Command) := c.outcome read .empty
    Path.extension? path = some sourceExtension ∧
      String.fromUTF8? source.toUTF8 = some source ∧
      (answer (.tokenize path)).code = malformed ∧
      (∃ rest, (answer (.tokenize path)).stderr = (answer (.parse path true)).stderr ++ rest) ∧
      (answer (.run path)).code = 1 ∧
      (answer (.run path)).stderr = (answer (.parse path true)).stderr := by
  intro path source read answer
  have hextension : Path.extension? path = some sourceExtension := by decide +kernel
  have hread : read path = .ok source.toUTF8 := rfl
  have htext : String.fromUTF8? source.toUTF8 = some source := by decide +kernel
  have hcode : (answer (.tokenize path)).code = malformed := by decide +kernel
  obtain ⟨hagree, -⟩ := Command.agree hextension hread htext .empty
  obtain ⟨e, rest, hsource, htokenize, hparse⟩ := hagree.first hcode
  obtain ⟨hrun, -, hstderr⟩ := (hagree.run_rejected true).2 (malformed_iff.2 ⟨_, hsource⟩)
  exact ⟨hextension, htext, hcode, ⟨rest, by rw [hparse true]; exact htokenize⟩, hrun, hstderr⟩

end PipeLang
