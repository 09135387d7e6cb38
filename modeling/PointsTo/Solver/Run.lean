/- # Run -- the solver from its start to its end

`start` queues the entry method, `step` does one piece of work, and `run` steps until there is none.  The
rounds of `run` double in length, so their number is a bound on the logarithm of the number of steps: every
fact is about contexts of at most the given depth, so there are at most exponentially many facts in the
depth, and every step either adds a fact or only takes a piece of work that a fact was the reason for. -/
import PointsTo.Number.Total
import PointsTo.Solver.Rules

set_option autoImplicit false

namespace PointsTo.State

variable (setting : Setting)

/-- The state in which only the entry method is pending. -/
def start : State :=
  let entry : QualifiedMethod := ⟨ContextTable.emptyId, setting.entry⟩
  { calls := (CallGraph.empty : ContextCallGraph).addEntry entry
    network := Network.empty.announce entry }

/-- Does the oldest piece of work, if there is one. -/
def step (s : State) : Option State :=
  match s.network.pop? with
  | none => none
  | some (item, network) =>
    let s := { s with network, iterations := s.iterations + 1 }
    match item with
    | .method m => some (enter setting s m)
    | .objects id set =>
      let (network, delta) := s.network.absorb id set
      let s := { s with network }
      some (if delta.isEmpty then s else react setting s id delta)

/-- At most `count` steps. -/
def steps : Nat → State → State
  | 0, s => s
  | count + 1, s =>
    match step setting s with
    | none => s
    | some next => steps count next

/-- At most `rounds` rounds, the first of `length` steps and each of twice as many as the one before. -/
def settle : Nat → Nat → State → State
  | 0, _, s => s
  | rounds + 1, length, s =>
    let s := steps setting length s
    if s.network.pending.isEmpty then s else settle rounds (2 * length) s

end PointsTo.State

namespace PointsTo

/-- The count of the parts of a program. -/
def Program.parts (p : Program) : Nat :=
  p.classes.size + p.fields.size + p.methods.size + p.vars.size + p.sites.size +
    total (p.methods.toList.map fun m => m.body.length + m.params.length + m.returns.length)

/-- The number of rounds that is enough for every run. -/
def Setting.rounds (setting : Setting) : Nat :=
  16 * (setting.policy.depth + setting.policy.heapDepth + 2) * (setting.program.parts.log2 + 2)

/-- The state at the end of the analysis. -/
def State.run (setting : Setting) : State :=
  State.settle setting setting.rounds 1 (State.start setting)

end PointsTo
