import StaticTyping.Proofs.Stored.Run
import StaticTyping.Proofs.Visited.Run

/-! Checks come to an end without giving up. A check of a program looks up no symbol that is not
there, and a check of a statement leaves the scopes and functions around it as they were. -/

namespace StaticTyping

open Check Program

/-- The type names symbols of the table only, at every depth. -/
def SymbolTable.Covers (table : SymbolTable) (ty : Ty) : Prop :=
  ty.Everywhere fun part => ∀ id, part.symbol? = some id → id ∈ table

/-- The check of a program without cycles never gives up, and every symbol that it looks up is in the
table by then. So is, in every state on the way, every symbol that the state refers to anywhere. -/
theorem check_finds_symbols (p : Program) (options : Options) (imports : List Ident)
    (h : p.Acyclic) :
    (Check.program ⟨p, options⟩ imports).Along
        (fun action s => action.Proceeds ∧ ∀ id ∈ action.indexed s, id ∈ s.symbols) {} ∧
      ∀ s ∈ (Check.program ⟨p, options⟩ imports).states {},
        s.Holds (· ∈ s.symbols) s.symbols.Covers := by
  constructor
  · have hmeets := program_meets ⟨p, options⟩ (fun id _ => (h.stmt id).ends) imports
    have hproceeds := (meets_performing_iff.mp hmeets).1
    have hsafe := (meets_performing_iff.mp (program_safe ⟨p, options⟩ imports)).1
    exact (hproceeds.and hsafe).mono fun _ _ hboth => ⟨hboth.1, hboth.2.2⟩
  · intro s hs
    have hsound := program_sound ⟨p, options⟩ imports s hs
    exact hsound.mono (fun _ hid => hid) fun _ ht => ht.symbols

theorem check_finds_symbols_sample :
    Program.sample.Acyclic ∧
      (Check.program ⟨Program.sample, {}⟩ [⟨"print", {}⟩]).Along
        (fun action s => action.Proceeds ∧ ∀ id ∈ action.indexed s, id ∈ s.symbols) {} ∧
      ∀ s ∈ (Check.program ⟨Program.sample, {}⟩ [⟨"print", {}⟩]).states {},
        s.Holds (· ∈ s.symbols) s.symbols.Covers :=
  ⟨sample_acyclic, check_finds_symbols _ _ _ sample_acyclic⟩

/-- Checking a statement below which there are no cycles never gives up, whatever state it starts
in. It leaves as many scopes and functions as there were. The names of the outer scopes stay as they
are, the innermost scope loses none of its names, and no name is narrowed that was not. -/
theorem stmt_keeps_scopes (env : Env) (id : StmtId) (h : env.program.AcyclicStmt id) (s : State) :
    (Check.stmt env id).Along (fun action _ => action.Proceeds) s ∧
      ((Check.stmt env id).run s).2.scopes.depth = s.scopes.depth ∧
      ((Check.stmt env id).run s).2.contexts.length = s.contexts.length ∧
      s.scopes.Extends ((Check.stmt env id).run s).2.scopes := by
  obtain ⟨halong, hdoes⟩ := meets_performing_iff.mp (stmt_meets h.ends s)
  exact ⟨halong, hdoes.scopes.depth_eq, hdoes.contexts, hdoes.scopes⟩

theorem stmt_keeps_scopes_sample :
    Program.sample.AcyclicStmt ⟨3⟩ ∧
      let env : Env := ⟨Program.sample, {}⟩
      let s : State := { scopes := {
        inner := { values := [("x", ⟨0⟩)], narrowed := [("x", .null)] }
        outer := [{ types := [("Counter", ⟨1⟩)], narrowed := [("x", .null)] }] } }
      (Check.stmt env ⟨3⟩).Along (fun action _ => action.Proceeds) s ∧
        ((Check.stmt env ⟨3⟩).run s).2.scopes.depth = s.scopes.depth ∧
        ((Check.stmt env ⟨3⟩).run s).2.contexts.length = s.contexts.length ∧
        s.scopes.Extends ((Check.stmt env ⟨3⟩).run s).2.scopes :=
  ⟨sample_acyclic.stmt ⟨3⟩, stmt_keeps_scopes _ _ (sample_acyclic.stmt ⟨3⟩) _⟩

end StaticTyping
