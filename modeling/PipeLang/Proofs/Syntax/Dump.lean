import Mathlib.Data.List.Nodup
import PipeLang.Proofs.Json
import PipeLang.Syntax.Dump

/-!
# Programs and their documents

The document of a program keeps everything (`Program.json_inj`) : the one field of a variant
names the constructor, and a constructor without contents is a string, which no variant is.
Together with `Json.eq_of_compact_eq`, the text of a program whose numbers are finite is the
text of no other such program, in both layouts.
-/

namespace PipeLang

/-- A variant is told by its name and its contents. -/
@[simp] theorem Json.variant_inj {name name' : String} {j k : Json} :
    Json.variant name j = Json.variant name' k ↔ name = name' ∧ j = k := by
  simp [Json.variant]

/-! ## Kinds, tokens and constants -/

namespace Kind

/-- The kinds that carry no value. -/
def plain : List Kind :=
  [.leftParen, .rightParen, .leftBrace, .rightBrace, .comma, .dot, .semicolon, .minus, .plus,
    .slash, .star, .bang, .bangEqual, .equal, .equalEqual, .greater, .greaterEqual, .less,
    .lessEqual, .pipe].map symbol ++
  [.andWord, .classWord, .elseWord, .falseWord, .funcWord, .forWord, .ifWord, .letWord, .mutWord,
    .nilWord, .orWord, .printWord, .returnWord, .superWord, .thisWord, .trueWord,
    .whileWord].map keyword ++
  [identifier, eof]

/-- A kind without a value is one of these. -/
theorem mem_plain {k : Kind} (h : k.literal? = none) : k ∈ plain := by
  cases k with
  | symbol s => cases s <;> decide
  | keyword w => cases w <;> decide
  | identifier | eof => decide
  | string | number => cases h

/-- And no two of them have one name. -/
theorem nodup_names : (plain.map name).Nodup := by decide +kernel

/-- A kind without a value is told by its name. -/
theorem name_inj {k l : Kind} (hk : k.literal? = none) (hl : l.literal? = none)
    (h : k.name = l.name) : k = l :=
  List.inj_on_of_nodup_map nodup_names (mem_plain hk) (mem_plain hl) h

/-- A kind is told by its document : a string unless it carries a value. -/
theorem json_inj {k l : Kind} (h : k.json = l.json) : k = l := by
  cases k with
  | string s =>
    cases l <;> simp [json, Json.variant] at h
    rw [h.2]
  | number x =>
    cases l <;> simp [json, Json.variant] at h
    rw [h.2]
  | symbol | keyword | identifier | eof =>
    cases l with
    | string | number => cases h
    | symbol | keyword | identifier | eof => exact name_inj rfl rfl (Json.string.inj h)

end Kind

/-- A token is told by its document, with its text and its line. -/
theorem Token.json_inj {t u : Token} (h : t.json = u.json) : t = u := by
  obtain ⟨kind, lexeme, line⟩ := t
  obtain ⟨kind', lexeme', line'⟩ := u
  simp only [Token.json, Json.object.injEq, List.cons.injEq, Prod.mk.injEq, Json.string.injEq,
    Json.natural.injEq, true_and, and_true] at h
  obtain ⟨hkind, rfl, rfl⟩ := h
  rw [Kind.json_inj hkind]

theorem Token.listJson_inj {ts us : List Token} (h : Token.listJson ts = Token.listJson us) :
    ts = us :=
  List.map_injective_iff.2 (fun _ _ => Token.json_inj) (Json.array.inj h)

/-- So is a constant. -/
theorem Literal.json_inj {l m : Literal} (h : l.json = m.json) : l = m := by
  cases l <;> cases m <;> simp_all [Literal.json, Json.variant]

/-! ## Programs -/

/-- No expression is written as the condition of the last resort. -/
theorem Expr.json_ne_null (e : Expr) : e.json ≠ .null := by
  cases e <;> simp [Expr.json, Json.variant]

mutual

/-- Expressions with one document are equal. By induction on the first, in one block with branches
and statements. -/
theorem Expr.json_inj : ∀ {e f : Expr}, e.json = f.json → e = f
  | .binary l o r, f, h => by
    cases f <;> simp [Expr.json] at h
    obtain ⟨hl, ho, hr⟩ := h
    rw [Expr.json_inj hl, Token.json_inj ho, Expr.json_inj hr]
  | .unary o r, f, h => by
    cases f <;> simp [Expr.json] at h
    obtain ⟨ho, hr⟩ := h
    rw [Token.json_inj ho, Expr.json_inj hr]
  | .grouping e, f, h => by
    cases f <;> simp [Expr.json] at h
    rw [Expr.json_inj h]
  | .literal l, f, h => by
    cases f <;> simp [Expr.json] at h
    rw [Literal.json_inj h]
  | .name t, f, h => by
    cases f <;> simp [Expr.json] at h
    rw [Token.json_inj h]
  | .call c t as p, f, h => by
    cases f <;> simp [Expr.json] at h
    obtain ⟨hc, ht, has, rfl⟩ := h
    rw [Expr.json_inj hc, Token.json_inj ht, Expr.jsons_inj has]
  | .block ss, f, h => by
    cases f <;> simp [Expr.json] at h
    rw [Stmt.jsons_inj h]
  | .ifChain bs, f, h => by
    cases f <;> simp [Expr.json] at h
    rw [Branch.jsons_inj h]

theorem Expr.jsons_inj : ∀ {es fs : List Expr}, Expr.jsons es = Expr.jsons fs → es = fs
  | [], fs, h => by
    cases fs <;> simp [Expr.jsons] at h
    rfl
  | e :: es, fs, h => by
    cases fs <;> simp [Expr.jsons] at h
    rw [Expr.json_inj h.1, Expr.jsons_inj h.2]

theorem Branch.json_inj : ∀ {b c : Branch}, b.json = c.json → b = c
  | .when e ss, c, h => by
    cases c <;> simp [Branch.json] at h
    · rw [Expr.json_inj h.1, Stmt.jsons_inj h.2]
    · exact absurd h.1 e.json_ne_null
  | .otherwise ss, c, h => by
    cases c <;> simp [Branch.json] at h
    · exact absurd h.1.symm (Expr.json_ne_null _)
    · rw [Stmt.jsons_inj h]

theorem Branch.jsons_inj : ∀ {bs cs : List Branch}, Branch.jsons bs = Branch.jsons cs → bs = cs
  | [], cs, h => by
    cases cs <;> simp [Branch.jsons] at h
    rfl
  | b :: bs, cs, h => by
    cases cs <;> simp [Branch.jsons] at h
    rw [Branch.json_inj h.1, Branch.jsons_inj h.2]

theorem Stmt.json_inj : ∀ {s t : Stmt}, s.json = t.json → s = t
  | .expression e, t, h => by
    cases t <;> simp [Stmt.json] at h
    rw [Expr.json_inj h]
  | .print e, t, h => by
    cases t <;> simp [Stmt.json] at h
    rw [Expr.json_inj h]
  | .declare n e m, t, h => by
    cases t <;> simp [Stmt.json] at h
    obtain ⟨hn, he, rfl⟩ := h
    rw [Token.json_inj hn, Expr.json_inj he]
  | .function n ps ss, t, h => by
    cases t <;> simp [Stmt.json] at h
    obtain ⟨hn, hps, hss⟩ := h
    rw [Token.json_inj hn, Token.listJson_inj hps, Stmt.jsons_inj hss]
  | .assign n e, t, h => by
    cases t <;> simp [Stmt.json] at h
    rw [Token.json_inj h.1, Expr.json_inj h.2]

theorem Stmt.jsons_inj : ∀ {ss ts : List Stmt}, Stmt.jsons ss = Stmt.jsons ts → ss = ts
  | [], ts, h => by
    cases ts <;> simp [Stmt.jsons] at h
    rfl
  | s :: ss, ts, h => by
    cases ts <;> simp [Stmt.jsons] at h
    rw [Stmt.json_inj h.1, Stmt.jsons_inj h.2]

end

/-- Every field of a program is in its document. -/
theorem Program.json_inj {p q : Program} (h : Program.json p = Program.json q) : p = q :=
  Stmt.jsons_inj (Json.array.inj h)

/-! ## Numbers -/

/-- The number that a kind carries. -/
def Kind.numbers : Kind → List Float
  | number x => [x]
  | _ => []

/-- The number that a constant is. -/
def Literal.numbers : Literal → List Float
  | number x => [x]
  | _ => []

mutual

/-- The numbers of an expression, those of its tokens too. -/
def Expr.numbers : Expr → List Float
  | .binary left operator right => left.numbers ++ operator.kind.numbers ++ right.numbers
  | .unary operator right => operator.kind.numbers ++ right.numbers
  | .grouping inner => inner.numbers
  | .literal value => value.numbers
  | .name token => token.kind.numbers
  | .call callee token arguments _ =>
    callee.numbers ++ token.kind.numbers ++ Expr.numbersOf arguments
  | .block body => Stmt.numbersOf body
  | .ifChain branches => Branch.numbersOf branches

/-- The numbers of expressions. -/
def Expr.numbersOf : List Expr → List Float
  | [] => []
  | e :: es => e.numbers ++ Expr.numbersOf es

/-- The numbers of a branch. -/
def Branch.numbers : Branch → List Float
  | .when condition body => condition.numbers ++ Stmt.numbersOf body
  | .otherwise body => Stmt.numbersOf body

/-- The numbers of branches. -/
def Branch.numbersOf : List Branch → List Float
  | [] => []
  | b :: bs => b.numbers ++ Branch.numbersOf bs

/-- The numbers of a statement. -/
def Stmt.numbers : Stmt → List Float
  | .expression value => value.numbers
  | .print value => value.numbers
  | .declare name initializer _ => name.kind.numbers ++ initializer.numbers
  | .function name parameters body =>
    name.kind.numbers ++ parameters.flatMap (fun t => t.kind.numbers) ++ Stmt.numbersOf body
  | .assign name value => name.kind.numbers ++ value.numbers

/-- The numbers of statements. -/
def Stmt.numbersOf : List Stmt → List Float
  | [] => []
  | s :: ss => s.numbers ++ Stmt.numbersOf ss

end

/-- Every number of a program is finite. -/
def Program.Finite (p : Program) : Prop := ∀ x ∈ Stmt.numbersOf p, Number.IsFinite x

instance (p : Program) : Decidable p.Finite :=
  inferInstanceAs (Decidable (∀ x ∈ Stmt.numbersOf p, Number.IsFinite x))

@[simp] theorem Json.numbers_variant (name : String) (contents : Json) :
    (Json.variant name contents).numbers = contents.numbers := by
  simp [Json.variant]

theorem Kind.numbers_json (k : Kind) : k.json.numbers = k.numbers := by
  cases k <;> simp [Kind.json, Kind.numbers]

@[simp] theorem Token.numbers_json (t : Token) : t.json.numbers = t.kind.numbers := by
  simp [Token.json, Kind.numbers_json]

@[simp] theorem Token.numbers_listJson (ts : List Token) :
    (Token.listJson ts).numbers = ts.flatMap fun t => t.kind.numbers := by
  simp [Token.listJson, Json.itemNumbers_eq, List.flatMap_map]

@[simp] theorem Literal.numbers_json (l : Literal) : l.json.numbers = l.numbers := by
  cases l <;> simp [Literal.json, Literal.numbers]

mutual

/-- The numbers of an expression are those of its document, so one is finite if the other is. -/
theorem Expr.numbers_json : ∀ e : Expr, e.json.numbers = e.numbers
  | .binary l o r => by simp [Expr.json, Expr.numbers, Expr.numbers_json l, Expr.numbers_json r]
  | .unary o r => by simp [Expr.json, Expr.numbers, Expr.numbers_json r]
  | .grouping e => by simp [Expr.json, Expr.numbers, Expr.numbers_json e]
  | .literal l => by simp [Expr.json, Expr.numbers]
  | .name t => by simp [Expr.json, Expr.numbers]
  | .call c t as p => by
    simp [Expr.json, Expr.numbers, Expr.numbers_json c, Expr.numbersOf_jsons as]
  | .block ss => by simp [Expr.json, Expr.numbers, Stmt.numbersOf_jsons ss]
  | .ifChain bs => by simp [Expr.json, Expr.numbers, Branch.numbersOf_jsons bs]

theorem Expr.numbersOf_jsons : ∀ es : List Expr,
    Json.itemNumbers (Expr.jsons es) = Expr.numbersOf es
  | [] => rfl
  | e :: es => by simp [Expr.jsons, Expr.numbersOf, Expr.numbers_json e, Expr.numbersOf_jsons es]

theorem Branch.numbers_json : ∀ b : Branch, b.json.numbers = b.numbers
  | .when e ss => by
    simp [Branch.json, Branch.numbers, Expr.numbers_json e, Stmt.numbersOf_jsons ss]
  | .otherwise ss => by simp [Branch.json, Branch.numbers, Stmt.numbersOf_jsons ss]

theorem Branch.numbersOf_jsons : ∀ bs : List Branch,
    Json.itemNumbers (Branch.jsons bs) = Branch.numbersOf bs
  | [] => rfl
  | b :: bs => by
    simp [Branch.jsons, Branch.numbersOf, Branch.numbers_json b, Branch.numbersOf_jsons bs]

theorem Stmt.numbers_json : ∀ s : Stmt, s.json.numbers = s.numbers
  | .expression e => by simp [Stmt.json, Stmt.numbers, Expr.numbers_json e]
  | .print e => by simp [Stmt.json, Stmt.numbers, Expr.numbers_json e]
  | .declare n e m => by simp [Stmt.json, Stmt.numbers, Expr.numbers_json e]
  | .function n ps ss => by simp [Stmt.json, Stmt.numbers, Stmt.numbersOf_jsons ss]
  | .assign n e => by simp [Stmt.json, Stmt.numbers, Expr.numbers_json e]

theorem Stmt.numbersOf_jsons : ∀ ss : List Stmt,
    Json.itemNumbers (Stmt.jsons ss) = Stmt.numbersOf ss
  | [] => rfl
  | s :: ss => by simp [Stmt.jsons, Stmt.numbersOf, Stmt.numbers_json s, Stmt.numbersOf_jsons ss]

end

/-- The numbers of a program are those of its document. -/
theorem Program.Finite.json {p : Program} (h : p.Finite) : (Program.json p).Finite := by
  unfold Json.Finite Program.json
  rwa [Json.numbers, Stmt.numbersOf_jsons]

/-! ## Texts -/

/-- Two programs have one text, in either layout, only if they are equal in every field. -/
theorem Program.json_text_eq_iff {p q : Program} (hp : p.Finite) (hq : q.Finite) :
    ((Program.json p).compact = (Program.json q).compact ↔ p = q) ∧
      ((Program.json p).pretty = (Program.json q).pretty ↔ p = q) := by
  refine ⟨⟨fun h => ?_, fun h => by rw [h]⟩, ⟨fun h => ?_, fun h => by rw [h]⟩⟩
  · exact Program.json_inj (Json.eq_of_compact_eq hp.json hq.json h)
  · exact Program.json_inj (Json.eq_of_pretty_eq hp.json hq.json h)

/-- A string that says what `nil` is written as is not written as `nil`, whatever is around. -/
theorem Program.json_text_string_ne_nil :
    let program (l : Literal) : Program :=
      [.assign ⟨.number 0.1, "x\"", 3⟩ (.call (.literal (.number (-2))) ⟨.eof, "", 0⟩
        [.ifChain [.otherwise [.print (.literal l)]]] true)]
    (Program.json (program (.string "Nil"))).compact ≠ (Program.json (program .nil)).compact ∧
      (Program.json (program (.string "Nil"))).pretty ≠ (Program.json (program .nil)).pretty := by
  intro program
  have hne : program (.string "Nil") ≠ program .nil := by simp [program]
  obtain ⟨hcompact, hpretty⟩ := Program.json_text_eq_iff
    (p := program (.string "Nil")) (q := program .nil) (by decide) (by decide)
  exact ⟨mt hcompact.1 hne, mt hpretty.1 hne⟩

end PipeLang
