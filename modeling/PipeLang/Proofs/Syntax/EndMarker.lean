import PipeLang.Proofs.Syntax.Completeness

/-!
# Tokens with an end marker

What stands behind the first end marker makes no difference to `parse`, and the tokens in
front of it are what the parser sees (`parse_append_end`). Without an end marker nothing but
the empty list is a program (`parse_ne_ok`).
-/

namespace PipeLang

section

variable {us : List Token} {stop : Token} (hus : ∀ t ∈ us, t.kind ≠ .eof)
  (hstop : stop.kind = .eof)

include hus in
theorem takeWhile_append_of_no_end (ts : List Token) :
    (us ++ ts).takeWhile (!·.isEnd) = us ++ ts.takeWhile (!·.isEnd) :=
  List.takeWhile_append_of_pos fun t ht => by simpa [Token.isEnd] using hus t ht

include hus in
theorem find?_isEnd_eq_none : us.find? Token.isEnd = none :=
  List.find?_eq_none.2 fun t ht => by simpa [Token.isEnd] using hus t ht

include hus hstop

/-- The tokens behind the first end marker make no difference. -/
theorem parse_append_end (rest : List Token) :
    parse (us ++ stop :: rest) = (Parser.program us).mapError (·.blame stop) := by
  have hbefore : (us ++ stop :: rest).takeWhile (!·.isEnd) = us := by
    rw [takeWhile_append_of_no_end hus]
    simp [Token.isEnd, hstop]
  have hfind : (us ++ stop :: rest).find? Token.isEnd = some stop := by
    simp [List.find?_append, find?_isEnd_eq_none hus, Token.isEnd, hstop]
  rw [parse, hfind, hbefore]

theorem takeWhile_concat_end : (us ++ [stop]).takeWhile (!·.isEnd) = us := by
  rw [takeWhile_append_of_no_end hus]
  simp [Token.isEnd, hstop]

theorem find?_concat_end : (us ++ [stop]).find? Token.isEnd = some stop := by
  simp [List.find?_append, find?_isEnd_eq_none hus, Token.isEnd, hstop]

theorem parse_concat_end :
    parse (us ++ [stop]) = (Parser.program us).mapError (·.blame stop) :=
  parse_append_end hus hstop []

/-- A program is what the rules read in front of the end marker. -/
theorem parse_concat_end_eq_ok_iff {p : Program} :
    parse (us ++ [stop]) = .ok p ↔ Parser.Reads .program p us := by
  have hend : ∃ t ∈ us ++ [stop], t.isEnd := ⟨stop, by simp, by simp [Token.isEnd, hstop]⟩
  rw [Parser.parse_eq_ok_iff hend, takeWhile_concat_end hus hstop]

end

/-- A list of tokens at its first end marker. -/
theorem exists_eq_append_end {ts : List Token} (h : ∃ t ∈ ts, t.kind = .eof) :
    ∃ us stop rest, ts = us ++ stop :: rest ∧ (∀ t ∈ us, t.kind ≠ .eof) ∧ stop.kind = .eof := by
  obtain ⟨t, ht, hkind⟩ := h
  have hsome : (ts.find? Token.isEnd).isSome :=
    List.find?_isSome.2 ⟨t, ht, by simp [Token.isEnd, hkind]⟩
  obtain ⟨stop, hstop⟩ := Option.isSome_iff_exists.1 hsome
  obtain ⟨hend, us, rest, rfl, hus⟩ := List.find?_eq_some_iff_append.1 hstop
  exact ⟨us, stop, rest, rfl, fun t ht => by simpa [Token.isEnd] using hus t ht,
    by simpa [Token.isEnd] using hend⟩

/-- Without an end marker the last statement is never at its end. -/
theorem parse_ne_ok {ts : List Token} (hne : ts ≠ []) (hts : ∀ t ∈ ts, t.kind ≠ .eof)
    (p : Program) : parse ts ≠ .ok p := by
  have hlast : ts.getLast? = some (ts.getLast hne) := List.getLast?_eq_some_getLast hne
  have hall : ts.takeWhile (!·.isEnd) = ts := by
    simpa using takeWhile_append_of_no_end hts []
  rw [parse, find?_isEnd_eq_none hts, hall, hlast]
  dsimp only
  intro h
  split at h <;> cases h

end PipeLang
