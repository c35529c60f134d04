import ElementMarkup.Proofs.Compile.Nesting
import ElementMarkup.Proofs.Document.Ending
import ElementMarkup.Proofs.Document.Grammar
import ElementMarkup.Proofs.Html
import ElementMarkup.Proofs.Token.Layout

/-!
Sources one after another. After a whole source the reader is between elements again, with the
document read so far, and goes on with the next source from there; only an import is too late after
an element. So the documents are put together, and without imports their HTML is too.
-/

namespace ElementMarkup

namespace Document

open Grammar

section

variable {document d e : Document} {index : Int} {ts us : List Token}

theorem read_strays {α : Type} {yield : α → List Token} {items : Strewn α}
    (bare : Strewn.trees items = []) (rest : List Token) :
    read ⟨document, .between⟩ index (Strewn.tokens yield items ++ rest) =
      read ⟨document, .between⟩ (index + (Strewn.tokens yield items).length) rest := by
  induction items generalizing index with
  | nil => simp
  | cons first items ih =>
    cases first with
    | inr tree => cases bare
    | inl stray =>
      rw [Strewn.tokens_stray, List.cons_append, read_step (step_stray stray), ih bare]
      congr 1
      simp only [List.length_cons]
      omega

/-- After an element the first of some imports is refused, whatever stray semicolons come before. -/
theorem read_late_import {items : Strewn ImportTree} {first : ImportTree} {others : List ImportTree}
    (started : document.elements ≠ []) (trees : Strewn.trees items = first :: others) (index : Int)
    (rest : List Token) :
    ∃ n, (read ⟨document, .between⟩ index (Strewn.tokens ImportTree.tokens items ++ rest)).stop =
      some (.fault (.lateImport n first.keyword.val)) := by
  induction items generalizing index with
  | nil => cases trees
  | cons item items ih =>
    cases item with
    | inl stray =>
      rw [Strewn.tokens_stray, List.cons_append, read_step (step_stray stray)]
      exact ih trees _
    | inr tree =>
      obtain ⟨rfl, -⟩ := List.cons.inj trees
      refine ⟨index, ?_⟩
      have importing : tree.keyword.val.kind = .importing := tree.keyword.property
      simp [ImportTree.tokens, read, step, importing, started]

/-- The tokens of a whole document but the last lead the reader to that document, between elements. -/
theorem read_whole (ended : Ended ts) (accepted : ofTokens ts = .ok d) (rest : List Token) :
    read {} 0 (ts.dropLast ++ rest) = read ⟨d, .between⟩ ts.dropLast.length rest := by
  obtain ⟨tree, more, rfl⟩ := derivation_of_ofTokens accepted
  obtain rfl := ended.rest_eq_nil
  rw [ofTokens_program] at accepted
  cases accepted
  have front : (tree.tokens ++ []).dropLast = Strewn.tokens ImportTree.tokens tree.imports ++
      Strewn.tokens ElementTree.tokens tree.elements := by
    rw [List.append_nil, ProgramTree.tokens, ← List.append_assoc, List.dropLast_concat]
  rw [front, List.append_assoc, read_imports tree.imports rfl, read_elements tree.elements]
  congr 1
  simp

/-- A document that is read after another is added to it, if no import comes too late. -/
theorem ofTokens_append (ended : Ended ts) (accepted : ofTokens ts = .ok d) (endedToo : Ended us)
    (next : ofTokens us = .ok e) (early : d.elements = [] ∨ e.imports = []) :
    ofTokens (ts.dropLast ++ us) = .ok ⟨d.imports ++ e.imports, d.elements ++ e.elements⟩ := by
  obtain ⟨⟨imports, elements, finish⟩, more, rfl⟩ := derivation_of_ofTokens next
  obtain rfl := endedToo.rest_eq_nil
  rw [ofTokens_program] at next
  cases next
  rw [ofTokens, read_whole ended accepted, ProgramTree.tokens, List.append_nil]
  rcases early with empty | none
  · rw [read_imports imports empty, read_elements elements, read, if_pos ⟨rfl, finish.property⟩]
    rfl
  · have bare : Strewn.trees imports = [] := by simpa [ProgramTree.meaning] using none
    rw [read_strays bare, read_elements elements, read, if_pos ⟨rfl, finish.property⟩]
    simp [ProgramTree.meaning, bare]

theorem ofTokens_append_late {i : Import} {imports : List Import} (ended : Ended ts)
    (accepted : ofTokens ts = .ok d) (endedToo : Ended us) (next : ofTokens us = .ok e)
    (started : d.elements ≠ []) (late : e.imports = i :: imports) :
    ∃ fault, ofTokens (ts.dropLast ++ us) = .error (.fault fault) ∧
      fault.kind = .invalidSyntax ∧ fault.found.position = i.position := by
  obtain ⟨tree, more, rfl⟩ := derivation_of_ofTokens next
  obtain rfl := endedToo.rest_eq_nil
  rw [ofTokens_program] at next
  cases next
  obtain ⟨first, others, trees, rfl, -⟩ := List.map_eq_cons_iff.mp late
  obtain ⟨n, stopped⟩ := read_late_import started trees ts.dropLast.length
    (Strewn.tokens ElementTree.tokens tree.elements ++ [tree.finish.val])
  refine ⟨.lateImport n first.keyword.val, ?_, rfl, rfl⟩
  rw [ofTokens, read_whole ended accepted, ProgramTree.tokens, List.append_nil]
  simp only [stopped]

end

end Document

theorem Token.tokens_ended {wide : Bool} {source : String} {ts : List Token}
    (scanned : Token.tokens wide source = .ok ts) : Document.Ended ts := by
  obtain ⟨-, spans, split, rfl⟩ := Token.split_of_tokens scanned
  refine ⟨⟨Token.close source, by simp, rfl⟩, ?_⟩
  rw [List.dropLast_concat]
  intro t member
  obtain ⟨span, listed, rfl⟩ := List.mem_map.mp member
  exact split.kind_ne_finish span listed

theorem Document.Ended.move {ts : List Token} (ended : Document.Ended ts) (place : Int → Int) :
    Document.Ended (ts.map (·.move place)) := by
  obtain ⟨⟨last, final, finish⟩, only⟩ := ended
  refine ⟨⟨last.move place, by simp [final], finish⟩, ?_⟩
  rw [← List.map_dropLast]
  intro t member
  obtain ⟨own, listed, rfl⟩ := List.mem_map.mp member
  exact only own listed

namespace Compile

section

variable {wide : Bool} {width : Int} {source : String} {d e : Document} {context : Context}

theorem document_eq_ok (read : (document wide width source).1 = .ok d) :
    ∃ ts, Token.tokens wide source = .ok ts ∧ Document.ofTokens ts = .ok d := by
  unfold document at read
  split at read
  · cases read
  · rename_i ts scanned
    simp only at read
    split at read
    · cases read
    · rename_i own parsed
      cases read
      exact ⟨ts, scanned, parsed⟩

/-- Without imports a compile only renders. -/
theorem compile_without_imports (read : (document context.wide context.width source).1 = .ok d)
    (alone : d.imports = []) (scope : Scope) (p : Progress) :
    (compile context scope source p).1 = .ok (Html.render p.components d.elements) := by
  have run : Run context _ scope d (p.note (document context.wide context.width source).2) _
      (compile context scope source p) := compile_run (Prod.ext read rfl)
  rw [run.computed.2, alone]
  rfl

variable {first second : String}

theorem tokens_of_lines (read : (document wide width first).1 = .ok d)
    (next : (document wide width second).1 = .ok e) :
    ∃ ts us, Token.tokens wide (first ++ "\n" ++ second) = .ok (ts.dropLast ++ us) ∧
      Document.Ended ts ∧ Document.ofTokens ts = .ok d ∧
      Document.Ended us ∧ Document.ofTokens us = .ok (e.move (· + (first.length + 1))) := by
  obtain ⟨ts, scanned, parsed⟩ := document_eq_ok read
  obtain ⟨us, scannedToo, parsedToo⟩ := document_eq_ok next
  have moved := Document.ofTokens_move (· + (first.length + 1)) us
  rw [parsedToo] at moved
  exact ⟨ts, _, Token.tokens_lines scanned scannedToo, Token.tokens_ended scanned, parsed,
    (Token.tokens_ended scannedToo).move _, moved⟩

theorem document_lines_early (read : (document wide width first).1 = .ok d)
    (next : (document wide width second).1 = .ok e) (early : d.elements = [] ∨ e.imports = []) :
    (document wide width (first ++ "\n" ++ second)).1 =
      .ok ⟨d.imports ++ e.imports.map (·.move (· + (first.length + 1))),
        d.elements ++ e.elements.map (·.move (· + (first.length + 1)))⟩ := by
  obtain ⟨ts, us, scanned, ended, parsed, endedToo, moved⟩ := tokens_of_lines read next
  have together := Document.ofTokens_append ended parsed endedToo moved (by simpa [Document.move] using early)
  simp only [document, scanned, together]
  rfl

theorem document_lines_late {i : Import} {rest : List Import}
    (read : (document wide width first).1 = .ok d) (next : (document wide width second).1 = .ok e)
    (started : d.elements ≠ []) (late : e.imports = i :: rest) :
    ∃ diagnostic, (document wide width (first ++ "\n" ++ second)).1 = .error (.diagnosed diagnostic) ∧
      diagnostic.kind = .invalidSyntax ∧ diagnostic.position = some (first.length + 1 + i.position) := by
  obtain ⟨ts, us, scanned, ended, parsed, endedToo, moved⟩ := tokens_of_lines read next
  have lateToo : (e.move (· + (first.length + 1))).imports =
      i.move (· + (first.length + 1)) :: rest.map (·.move (· + (first.length + 1))) := by
    rw [Document.move, late, List.map_cons]
  obtain ⟨fault, fails, kind, position⟩ :=
    Document.ofTokens_append_late ended parsed endedToo moved started lateToo
  refine ⟨fault.diagnostic width (first ++ "\n" ++ second), ?_, ?_, ?_⟩
  · simp only [document, scanned, fails]
    rfl
  · rw [Document.Fault.diagnostic, Diagnostic.report_kind, kind]
  · rw [Document.Fault.diagnostic, Diagnostic.report_position, position, Import.move, Int.add_comm]

theorem compile_lines (read : (document context.wide context.width first).1 = .ok d)
    (next : (document context.wide context.width second).1 = .ok e) (alone : d.imports = [])
    (aloneToo : e.imports = []) (some : d.elements ≠ []) (more : e.elements ≠ []) (scope : Scope)
    (p : Progress) :
    (compile context scope (first ++ "\n" ++ second) p).1 =
      .ok (Html.render p.components d.elements ++ "\n" ++ Html.render p.components e.elements) := by
  have together := document_lines_early read next (Or.inr aloneToo)
  rw [compile_without_imports together (by simp [alone, aloneToo]),
    Html.render_append p.components some (by simpa using more), Html.render_move]

end

/-- Two sources in a row are read to their documents put together, unless an import comes late.
Without imports their HTML is put together, too. -/
theorem document_lines (context : Context) (first second : String) (d e : Document)
    (read : (document context.wide context.width first).1 = .ok d)
    (next : (document context.wide context.width second).1 = .ok e) :
    (d.elements = [] ∨ e.imports = [] →
      (document context.wide context.width (first ++ "\n" ++ second)).1 =
        .ok ⟨d.imports ++ e.imports.map (·.move (· + (first.length + 1))),
          d.elements ++ e.elements.map (·.move (· + (first.length + 1)))⟩) ∧
    (d.elements ≠ [] → ∀ i rest, e.imports = i :: rest →
      ∃ diagnostic, (document context.wide context.width (first ++ "\n" ++ second)).1 =
          .error (.diagnosed diagnostic) ∧
        diagnostic.kind = .invalidSyntax ∧
        diagnostic.position = some (first.length + 1 + i.position)) ∧
    (d.imports = [] → e.imports = [] → d.elements ≠ [] → e.elements ≠ [] → ∀ scope p,
      ∃ front back, (compile context scope first p).1 = .ok front ∧
        (compile context scope second p).1 = .ok back ∧
        (compile context scope (first ++ "\n" ++ second) p).1 = .ok (front ++ "\n" ++ back)) := by
  refine ⟨document_lines_early read next, fun started i rest => document_lines_late read next started, ?_⟩
  intro alone aloneToo some more scope p
  exact ⟨_, _, compile_without_imports read alone scope p, compile_without_imports next aloneToo scope p,
    compile_lines read next alone aloneToo some more scope p⟩

/-- The first source ends in a comment, and a stray semicolon comes behind it. -/
theorem comment_between_sources :
    (document false 40 "p:;--x").1 = .ok ⟨[], [⟨"p", {}, true, [], 0⟩]⟩ ∧
    (document false 40 ";b:;").1 = .ok ⟨[], [⟨"b", {}, true, [], 1⟩]⟩ ∧
    (document false 40 "p:;--x\n;b:;").1 =
      .ok ⟨[], [⟨"p", {}, true, [], 0⟩, ⟨"b", {}, true, [], 8⟩]⟩ ∧
    (∃ front back, (compile {} ⟨"/", []⟩ "p:;--x" {}).1 = .ok front ∧
      (compile {} ⟨"/", []⟩ ";b:;" {}).1 = .ok back ∧
      (compile {} ⟨"/", []⟩ "p:;--x\n;b:;" {}).1 = .ok (front ++ "\n" ++ back)) ∧
    (document false 40 ";import N from \"\";").1 = .ok ⟨[⟨"N", "", 1⟩], []⟩ ∧
    ∃ diagnostic, (document false 40 "p:;--x\n;import N from \"\";").1 = .error (.diagnosed diagnostic) ∧
      diagnostic.kind = .invalidSyntax ∧ diagnostic.position = some 8 := by
  have scanned : Token.tokens false "p:;--x" =
      .ok [⟨.tag, "p", 0⟩, ⟨.colon, ":", 1⟩, ⟨.semicolon, ";", 2⟩, ⟨.finish, "EOF", 6⟩] := by
    decide +kernel
  have scannedElement : Token.tokens false ";b:;" =
      .ok [⟨.semicolon, ";", 0⟩, ⟨.tag, "b", 1⟩, ⟨.colon, ":", 2⟩, ⟨.semicolon, ";", 3⟩,
        ⟨.finish, "EOF", 4⟩] := by
    decide +kernel
  have scannedImport : Token.tokens false ";import N from \"\";" =
      .ok [⟨.semicolon, ";", 0⟩, ⟨.importing, "import", 1⟩, ⟨.tag, "N", 8⟩, ⟨.origin, "from", 10⟩,
        ⟨.quoted, "", 15⟩, ⟨.semicolon, ";", 17⟩, ⟨.finish, "EOF", 18⟩] := by
    decide +kernel
  have read : (document false 40 "p:;--x").1 = .ok ⟨[], [⟨"p", {}, true, [], 0⟩]⟩ := by
    rw [document, scanned]
    rfl
  have element : (document false 40 ";b:;").1 = .ok ⟨[], [⟨"b", {}, true, [], 1⟩]⟩ := by
    rw [document, scannedElement]
    rfl
  have imported : (document false 40 ";import N from \"\";").1 = .ok ⟨[⟨"N", "", 1⟩], []⟩ := by
    rw [document, scannedImport]
    rfl
  obtain ⟨together, -, compiled⟩ := document_lines {} _ _ _ _ read element
  obtain ⟨-, late, -⟩ := document_lines {} _ _ _ _ read imported
  exact ⟨read, element, together (Or.inr rfl),
    compiled rfl rfl (List.cons_ne_nil _ _) (List.cons_ne_nil _ _) _ _, imported,
    late (List.cons_ne_nil _ _) _ _ rfl⟩

end Compile

end ElementMarkup
