import SatWalk.Event
import SatWalk.Formula.Build
import SatWalk.Walk.Steps

/-!
Searches run to their end. Every operation here keeps a log beside its state: the events it reports
and, for a run, a view of the search after each counted step. The log stays when the operation
fails.
-/

namespace SatWalk

inductive Notice (R α : Type) [MachineReal R]
  | event (e : Event R)
  | seen (view : α)

variable {R : Type} [MachineReal R] {α : Type}

abbrev Log (R α : Type) [MachineReal R] := Array (Notice R α)

namespace Notice

def event? : Notice R α → Option (Event R)
  | event e => some e
  | seen _ => none

def view? : Notice R α → Option α
  | event _ => none
  | seen a => some a

end Notice

/-- An operation with a log, to which it adds what its success or its fault gives to report. -/
def logged {σ β : Type} (act : Attempt σ β) (report : β → σ → List (Event R)) :
    Attempt (σ × Log R α) β := fun (s, log) =>
  match act s with
  | .ok b s' => .ok b (s', log ++ ((report b s').map Notice.event).toArray)
  | .error e s' => .error e (s', log ++ ((Event.ofFault e).map Notice.event).toArray)

def Formula.reported {ε : Type} : Except ε Formula → List (Event R)
  | .ok F => [.built F]
  | .error _ => []

namespace Run

variable {F : Formula} {c : Config R} {G : Type} [Source G]

def start (F : Formula) (c : Config R) (A : Option Assignment) :
    Attempt (G × Log R α) (Walk F c) :=
  logged (Walk.start F c A) fun _ _ => [.started F c]

def restart (A : Option Assignment) : Attempt ((Walk F c × G) × Log R α) Unit :=
  logged (Walk.restart A) fun _ s => [.restarted s.1.state.unsatisfied.size]

def step : Attempt ((Walk F c × G) × Log R α) Status := logged Walk.step fun _ _ => []

def notices (view : Walk F c → α) (w : Walk F c) : Log R α :=
  if c.reportInterval ≠ 0 ∧ w.steps % c.reportInterval = 0 then
    #[.seen (view w), .event (.progress w.steps w.state.unsatisfied.size w.statistics)]
  else #[.seen (view w)]

def ending (status : Status) (w : Walk F c) : Event R :=
  if status = .satisfied then .satisfied w.steps
  else .exhausted w.steps w.state.unsatisfied.size w.statistics.lowest

def drive (view : Walk F c → α) (w : Walk F c) (g : G) (log : Log R α) :
    EStateM.Result Fault ((Walk F c × G) × Log R α) Status :=
  match h : Walk.step (w, g) with
  | .error e s => .error e (s, log ++ ((Event.ofFault e).map Notice.event).toArray)
  | .ok status (w', g') =>
    let log := if w'.steps = w.steps then log else log ++ notices view w'
    if _hs : status = .running then drive view w' g' log
    else .ok status ((w', g'), log.push (.event (ending status w')))
termination_by c.budget - w.steps
decreasing_by
  subst _hs
  have := Walk.step_running h
  omega

def finish (view : Walk F c → α) : Attempt ((Walk F c × G) × Log R α) Outcome :=
  fun ((w, g), log) =>
  match drive view w g log with
  | .ok _ s => .ok s.1.1.outcome s
  | .error e s => .error e s

def solve (F : Formula) (c : Config R) (A : Option Assignment) (view : Walk F c → α) :
    Attempt (G × Log R α) Outcome := fun s =>
  match start F c A s with
  | .error e s' => .error e s'
  | .ok w (g, log) =>
    match finish view ((w, g), log) with
    | .ok o ((_, g'), log') => .ok o (g', log')
    | .error e ((_, g'), log') => .error e (g', log')

end Run

end SatWalk
