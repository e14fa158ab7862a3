import ScriptLint.Proofs.Layout.Recovery
import ScriptLint.Proofs.Parsing.SequelStatement
/-!
# One text behind another

Put two semicolons on a line of their own behind a text without errors, and
any other text behind them. The statements of the whole are those of the
first text and then those of the second, and its errors are those of the
second: neither text is read differently because of the other. Nothing of
the first is left when the second begins, neither a token nor a level nor an
error.

Key theorems: `Script.recover_concatenation`.
-/

namespace ScriptLint

/-- A semicolon at an offset. -/
def semicolonAt (offset : Nat) : Lexeme :=
  ⟨.punctuator .semicolon, ⟨offset, 1⟩⟩

/-- What stands behind the first of two texts. -/
def partedSequel (a b : String) : Parse.Sequel where
  first := semicolonAt (a.utf8ByteSize + 1)
  second := semicolonAt (a.utf8ByteSize + 2)
  rest := (scan b).map (Scanned.shift (a.utf8ByteSize + 4))
  stop := b.utf8ByteSize + (a.utf8ByteSize + 4)
  first_token := rfl
  second_token := rfl

theorem extends_partedSequel {a : String} {ws : List Lexeme} (ha : tokenize a = .ok ws)
    (b : String) : (partedSequel a b).Extends (.ofText a) (.ofText (a ++ "\n;;\n" ++ b)) := by
  have hscan : scan a = ws.map .ok := tokenize_eq_ok.mp ha
  have hparted : scan (a ++ "\n;;\n" ++ b) = scan a ++ (partedSequel a b).items := by
    rw [scan_parted ha, hscan]
    rfl
  refine ⟨?_, ?_, rfl, ?_, Parse.leadingErrors_dropErrors _⟩
  · show Parse.dropErrors (scan (a ++ "\n;;\n" ++ b)) = Parse.dropErrors (scan a) ++ _
    rw [hparted, Parse.Sequel.dropErrors_append_items]
  · show (a ++ "\n;;\n" ++ b).utf8ByteSize = b.utf8ByteSize + (a.utf8ByteSize + 4)
    have hsigns : "\n;;\n".utf8ByteSize = 4 := by decide
    rw [String.utf8ByteSize_append, String.utf8ByteSize_append, hsigns, Nat.add_comm]
  · show ((Parse.leadingErrors (scan (a ++ "\n;;\n" ++ b))).map SyntaxError.ofLexical).reverse ++ [] =
      ((Parse.leadingErrors (scan a)).map SyntaxError.ofLexical).reverse ++ []
    rw [hparted, Parse.Sequel.leadingErrors_append_items]

/-- Behind the semicolons the reader is where it is at the start of the second text, further on. -/
theorem alike_resume (a b : String) {u : Parse.State} (hroom : u.room = nestingLimit)
    (hlog : u.log = []) : (Parse.State.ofText b).Alike (shiftAlignment (a.utf8ByteSize + 4) [])
      ((partedSequel a b).resume u) := by
  refine Parse.State.Alike.settle ⟨?_, rfl, .inr ⟨rfl, ?_⟩, hroom.symm, [], ?_, .nil⟩
  · show List.Forall₂ _ (scan b) ((scan b).map (Scanned.shift (a.utf8ByteSize + 4)))
    rw [List.forall₂_map_right_iff, List.forall₂_same]
    exact fun item _ => alike_shift _ _ item
  · exact Nat.le_succ (a.utf8ByteSize + 3)
  · exact hlog

namespace Script

/-- At the end of a text all levels are given back. -/
theorem room_readBody (text : String) : (readBody text).2.room = nestingLimit := by
  have hends : Parse.Ends (Parse.statements (Parse.statement nestingLimit) none) (.ofText text)
      (fun body t => (∀ stmt ∈ body, True) ∧ t.room = nestingLimit) fun _ => False :=
    Parse.Ends.statements (I := fun t => t.room = nestingLimit) (fun t ht => by simpa using ht)
      (fun t ht => (Parse.Ends.room_nested _ t).imp (fun _ u hu => ⟨trivial, hu.trans ht⟩)
        fun u hu => hu.trans ht)
      (fun _ t ht => by simpa using ht) rfl
  exact (hends.of_ok (readBody_run text)).2

/-- **Two texts are read one after the other.** Let the first text be read without an error. With
two semicolons on a line of their own between them, the statements of both texts are those of the
first, up to their places, and then those of the second, as far on as the first text and the
semicolons reach; the errors are those of the second text, as far on. -/
theorem recover_concatenation {name a : String} {script : Script} (ha : parse name a = .ok script)
    (b : String) : ∃ front back,
      (recover name (a ++ "\n;;\n" ++ b)).1.body = front ++ back ∧
      List.Forall₂ (Stmt.Alike anyPlace) script.body front ∧
      List.Forall₂ (Stmt.Alike fun s t => t = s.shift (a.utf8ByteSize + 4))
        (recover name b).1.body back ∧
      (recover name (a ++ "\n;;\n" ++ b)).2 =
        (recover name b).2.map (SyntaxError.shift (a.utf8ByteSize + 4)) := by
  obtain ⟨rfl, hlog⟩ := parse_eq_ok.mp ha
  obtain ⟨ws, htokens, -, -⟩ := spells_readBody hlog
  obtain ⟨-, -, hahead⟩ := derives_readBody a
  have hend : (readBody a).2.token? = none := by simp [Parse.State.token?, hahead]
  -- the loop over both texts comes to the statements of the first and behind the semicolons
  obtain ⟨front, v, hfront, hmeets, hloop⟩ :=
    Parse.Sequel.loop_statements (Parse.reads_statement nestingLimit)
      (Parse.Sequel.continues_statement nestingLimit) (extends_partedSequel htokens b) .nil
      (readBody_run a) hlog
  rw [Parse.Sequel.loop_resume front hmeets hend] at hloop
  -- and from there on it agrees with the loop over the second one alone
  have halike := alike_resume a b (room_readBody a) hlog
  have hagree := Parse.agree_statementsLoop none (Parse.agree_statement nestingLimit) front _ _ halike
  rw [← hloop, ← Parse.statements_eq, readBody_run, readBody_run] at hagree
  cases hagree with
  | ok hbody hstate =>
    obtain ⟨back, hbody, hback⟩ := hbody
    have hlogs := hstate.log
    rw [spans_shiftAlignment] at hback hlogs
    refine ⟨front, back, hbody, hfront, hback, ?_⟩
    show (readBody (a ++ "\n;;\n" ++ b)).2.log.reverse = (readBody b).2.log.reverse.map _
    rw [errors_eq_shift hlogs, List.map_reverse]

/-- The theorem where the first text ends with a statement that may take a semicolon and with a
comment, and the second has two errors. -/
theorem recover_concatenation_return : ∃ script front back,
    parse "a.ts" "if (a) return // b" = .ok script ∧
    (recover "a.ts" ("if (a) return // b" ++ "\n;;\n" ++ "let x = ) 1 \"")).1.body = front ++ back ∧
    List.Forall₂ (Stmt.Alike anyPlace) script.body front ∧
    List.Forall₂ (Stmt.Alike fun s t => t = s.shift 22) (recover "a.ts" "let x = ) 1 \"").1.body back ∧
    (recover "a.ts" ("if (a) return // b" ++ "\n;;\n" ++ "let x = ) 1 \"")).2 =
      (recover "a.ts" "let x = ) 1 \"").2.map (SyntaxError.shift 22) := by
  have hok : (parse "a.ts" "if (a) return // b").toBool = true := by decide +kernel
  cases h : parse "a.ts" "if (a) return // b" with
  | error errors => simp [h, Except.toBool] at hok
  | ok script =>
    obtain ⟨front, back, hwhole⟩ := recover_concatenation h "let x = ) 1 \""
    exact ⟨script, front, back, rfl, hwhole⟩

end Script

end ScriptLint
