import Quorum.Behaviour.Task

/-!
# One task alone with a clock

`Trial` is a task with everything that it can reach. Time passes in ticks: at each instant the task
goes on as far as it can, then the responses that came in are offered to it.
-/

namespace Quorum

/-- A task with everything that it can reach. -/
structure Trial (σ ρ : Type) where
  machine : Machine σ ρ
  task : Task σ
  site : Site
  /-- The task has a result or was given up. -/
  ended : Bool := false
  /-- The result, until it is taken. -/
  result : Option ρ := none
  /-- What became of the responses that were offered, until it is taken. -/
  log : List ((RequestNonce × External.Result) × External.Delivery) := []

namespace Trial

variable {σ ρ : Type}

/-- Let the task go on as far as it can. -/
def run (t : Trial σ ρ) : Trial σ ρ :=
  if t.ended then t
  else
    let (task, site, result) := t.task.poll t.machine Task.stepLimit t.site
    { t with task, site, result, ended := result.isSome }

/-- Offer the responses that came in. -/
def deliverAll (t : Trial σ ρ) : Trial σ ρ :=
  let (dispatcher, log) := t.site.dispatcher.deliverAll
  { t with site := { t.site with dispatcher }, log := t.log ++ log }

/-- Everything that happens at one instant. -/
def instant (deliver : Bool) (t : Trial σ ρ) : Trial σ ρ :=
  let t := t.run
  if deliver then t.deliverAll else t

/-- Let `duration` pass in ticks. -/
def advance (deliver : Bool) (tick : Nat) : Nat → Nat → Trial σ ρ → Trial σ ρ
  | 0, _, t => t.instant deliver
  | ticks + 1, duration, t =>
    let t := t.instant deliver
    if duration = 0 then t
    else
      let d := min tick duration
      advance deliver tick ticks (duration - d)
        { t with site := { t.site with now := t.site.now + d } }

/-- Give up on the task and forget its requests; how many there were. -/
def tearDown (t : Trial σ ρ) : Trial σ ρ × Nat :=
  let (task, dispatcher) := if t.ended then (t.task, t.site.dispatcher) else t.task.abort t.site.dispatcher
  let (dispatcher, n) := dispatcher.release t.task.actor.instanceId
  ({ t with task, ended := true, site := { t.site with dispatcher } }, n)

end Trial

end Quorum
