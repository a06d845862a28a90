import Airtime.Proofs.Atomic
import Airtime.Proofs.SidelinkGrant

/-! The sidelink scheduler changed in place, step by step. A destination is stored before its
channels are looked at, and a process is taken in the middle of a trigger. Handled so, an operation
ends in the state, with the messages and the answer, that it gives as a whole (`handle_eq`). -/

namespace Airtime

namespace HarqTable.InPlace

variable {κ π : Type}

theorem run_assign (t : HarqTable κ π) (k : κ) : (assign k).run t = done t (t.assign k) := by
  obtain ⟨free, processes⟩ := t
  cases free <;> rfl

end HarqTable.InPlace

namespace Sidelink

variable {s s' : Sidelink} {id : DestinationId}

theorem put_put (s : Sidelink) (id : DestinationId) (d d' : Destination) :
    (s.put id d).put id d' = s.put id d' := by
  simp only [put, Table.insert_insert]

theorem put_of_destination? {d : Destination} (h : s.destination? id = some d) :
    s.put id d = s := by
  rw [put, Table.insert_of_get? h]

/-- A scheduler at work, and the confirmations that it has sent. -/
structure Progress where
  scheduler : Sidelink
  sent : List Confirmation

/-- Steps that change a scheduler. Where they end early, the changes made before stay. -/
abbrev InPlace (α : Type) := EStateM Failure Progress α

namespace InPlace

variable {α : Type}

def computed : Except Fault α → InPlace α
  | .error f => throw (.fault f)
  | .ok a => return a

def known (id : DestinationId) : InPlace Destination := do
  match (← get).scheduler.destination? id with
  | none => throw (.refused (.unknownDestination id))
  | some d => return d

def store (id : DestinationId) (d : Destination) : InPlace Unit :=
  modify fun p => { p with scheduler := p.scheduler.put id d }

def confirm (c : Confirmation) : InPlace Unit := modify fun p => { p with sent := p.sent ++ [c] }

/-- Steps of the pool, which is kept however they end. -/
def onPool (steps : HarqTable.InPlace DestinationId Packet α) : InPlace α := do
  let p ← get
  match steps.run p.scheduler.harq with
  | .error e harq =>
    set { p with scheduler := { p.scheduler with harq } }
    throw (.refused (.harq e))
  | .ok a harq =>
    set { p with scheduler := { p.scheduler with harq } }
    return a

def configureChannel (r : SidelinkRequest) : InPlace Unit := do
  let s := (← get).scheduler
  let d := (s.destination? r.destination).getD (.fresh s.config.initialMcs)
  store r.destination d
  match d.groups.holding? r.channel with
  | some (_, g) => throw (.refused (.duplicateChannel g.id r.channel))
  | none =>
    let g := (d.groups.get? r.group).getD (.empty r.group)
    store r.destination { d with groups := d.groups.insert r.group g }
    match g.insert (.fresh r.channel r.group r.priority) with
    | .error e => throw (.refused e)
    | .ok g =>
      let d := { d with groups := d.groups.insert r.group g }
      store r.destination d
      store r.destination { d with repeated := d.repeated || r.repeated }
      if s.confirming then confirm ⟨r.group, r.channel⟩

def reportBuffer (r : BufferReport DestinationId) : InPlace Unit := do
  let d ← known r.destination
  match d.groups.update r with
  | .error e => throw (.refused e)
  | .ok (_, groups) => store r.destination { d with groups }

def reportQuality (id : DestinationId) (cqi : UInt8) : InPlace Unit := do
  let d ← known id
  store id { d with cqi := some cqi }

def trigger (id : DestinationId) (candidates : List Candidate) :
    InPlace (Option (List Grant)) := do
  let d ← known id
  let s := (← get).scheduler
  let backlog ← computed d.backlog
  if backlog = 0 ∨ candidates.isEmpty ∨ s.harq.available = 0 then return none
  else
    let p ← computed (s.plan d backlog candidates)
    if p.size = 0 then return none
    else
      let process ← onPool (HarqTable.InPlace.assign id)
      -- The destination is looked up once more, with the process taken already.
      let d ← known id
      let d := { d with mcs := p.mcs }
      store id d
      let (content, groups) ← computed (d.groups.fill p.size)
      store id { d with groups }
      return some (grants p.chosen (firstGrant id p process content))

def addPacket (id : DestinationId) (channel : ChannelId) (process : ProcessId) (packet : Packet) :
    InPlace Unit :=
  onPool (HarqTable.InPlace.addPacket id channel process packet)

def feedback (id : DestinationId) (process : ProcessId) : InPlace Unit :=
  onPool (HarqTable.InPlace.release id process)

def operation : SidelinkOperation → InPlace (Option (List Grant))
  | .configureChannel r => do
    configureChannel r
    return none
  | .reportBuffer r => do
    reportBuffer r
    return none
  | .reportQuality id cqi => do
    reportQuality id cqi
    return none
  | .trigger id candidates => trigger id candidates
  | .addPacket id channel process packet => do
    addPacket id channel process packet
    return none
  | .feedback id process => do
    feedback id process
    return none

end InPlace

abbrev Aftermath := Progress × Except Refusal (Option (List Grant))

/-- How steps end. A fault is the end of the scheduler. -/
def ended : EStateM.Result Failure Progress (Option (List Grant)) → Except Fault Aftermath
  | .error (.fault f) _ => .error f
  | .error (.refused why) p => .ok (p, .error why)
  | .ok answer p => .ok (p, .ok answer)

def handle (s : Sidelink) (op : SidelinkOperation) : Except Fault Aftermath :=
  ended ((InPlace.operation op).run ⟨s, []⟩)

def quiet (x : Sidelink × Except Refusal Unit) : Aftermath := (⟨x.1, []⟩, x.2.map fun _ => none)

/-- What the operations give. -/
def outcome (s : Sidelink) : SidelinkOperation → Except Fault Aftermath
  | .configureChannel r =>
    let x := s.configureChannel r
    .ok (⟨x.1, x.2.toOption.join.toList⟩, x.2.map fun _ => none)
  | .reportBuffer r => .ok (quiet (s.reportBuffer r))
  | .reportQuality id cqi => .ok (quiet (s.reportQuality id cqi))
  | .trigger id candidates => do
    let (s, answer) ← s.trigger id candidates
    return (⟨s, []⟩, answer)
  | .addPacket id channel process packet => .ok (quiet (s.addPacket id channel process packet))
  | .feedback id process => .ok (quiet (s.feedback id process))

namespace InPlace

theorem run_known (p : Progress) (id : DestinationId) : (known id).run p =
    match p.scheduler.destination? id with
    | none => .error (.refused (.unknownDestination id)) p
    | some d => .ok d p := by
  simp only [known, EStateM.run_bind, EStateM.run_get]
  cases p.scheduler.destination? id <;> rfl

/-- How steps of the pool end that change it altogether or not at all. -/
def pooled {α : Type} (p : Progress) :
    Except HarqError (α × HarqTable DestinationId Packet) → EStateM.Result Failure Progress α
  | .error e => .error (.refused (.harq e)) p
  | .ok (a, harq) => .ok a { p with scheduler := { p.scheduler with harq } }

theorem run_onPool {α : Type} {steps : HarqTable.InPlace DestinationId Packet α} {p : Progress}
    {x : Except HarqError (α × HarqTable DestinationId Packet)}
    (h : steps.run p.scheduler.harq = HarqTable.InPlace.done p.scheduler.harq x) :
    (onPool steps).run p = pooled p x := by
  simp only [onPool, EStateM.run_bind, EStateM.run_get, h]
  cases x <;> rfl

theorem run_computed {α : Type} (p : Progress) (a : α) :
    (computed (.ok a)).run p = .ok a p := rfl

theorem run_store (p : Progress) (id : DestinationId) (d : Destination) :
    (store id d).run p = .ok () { p with scheduler := p.scheduler.put id d } := rfl

theorem ended_configureChannel (s : Sidelink) (r : SidelinkRequest) :
    s.handle (.configureChannel r) = s.outcome (.configureChannel r) := by
  simp only [handle, operation, configureChannel, outcome, Sidelink.configureChannel,
    EStateM.run_bind, EStateM.run_get, run_store]
  generalize (s.destination? r.destination).getD (.fresh s.config.initialMcs) = d
  cases d.groups.holding? r.channel with
  | some e => rfl
  | none =>
    simp only [EStateM.run_bind, run_store]
    generalize (d.groups.get? r.group).getD (.empty r.group) = g
    cases g.insert (.fresh r.channel r.group r.priority) with
    | error e =>
      simp only [put_put]
      rfl
    | ok g =>
      simp only [EStateM.run_bind, run_store, put_put]
      cases s.confirming <;> rfl

theorem ended_reportBuffer (s : Sidelink) (r : BufferReport DestinationId) :
    s.handle (.reportBuffer r) = s.outcome (.reportBuffer r) := by
  simp only [handle, operation, reportBuffer, outcome, Sidelink.reportBuffer, EStateM.run_bind,
    run_known]
  cases s.destination? r.destination with
  | none => rfl
  | some d =>
    simp only
    cases d.groups.update r <;> rfl

theorem ended_reportQuality (s : Sidelink) (id : DestinationId) (cqi : UInt8) :
    s.handle (.reportQuality id cqi) = s.outcome (.reportQuality id cqi) := by
  simp only [handle, operation, reportQuality, outcome, Sidelink.reportQuality, EStateM.run_bind,
    run_known]
  cases s.destination? id <;> rfl

theorem ended_trigger (s : Sidelink) (id : DestinationId) (cs : List Candidate) :
    s.handle (.trigger id cs) = s.outcome (.trigger id cs) := by
  simp only [handle, operation, trigger, outcome, trigger_eq, EStateM.run_bind, run_known,
    EStateM.run_get]
  cases hd : s.destination? id with
  | none => rfl
  | some d =>
    simp only
    cases d.backlog with
    | error f => rfl
    | ok backlog =>
      simp only [run_computed, ok_bind]
      split
      · rfl
      · cases s.plan d backlog cs with
        | error f => rfl
        | ok p =>
          simp only [EStateM.run_bind, run_computed, ok_bind]
          split
          · rfl
          · simp only [EStateM.run_bind, run_onPool (HarqTable.InPlace.run_assign ..)]
            cases s.harq.assign id with
            | error e => rfl
            | ok x =>
              obtain ⟨process, harq⟩ := x
              have hd' : ({ s with harq } : Sidelink).destination? id = some d := hd
              simp only [pooled, run_known, hd', run_store]
              cases d.groups.fill p.size with
              | error f => rfl
              | ok y =>
                simp only [run_computed, put_put]
                rfl

end InPlace

theorem handle_eq (s : Sidelink) (op : SidelinkOperation) : s.handle op = s.outcome op := by
  cases op with
  | configureChannel r => exact InPlace.ended_configureChannel s r
  | reportBuffer r => exact InPlace.ended_reportBuffer s r
  | reportQuality id cqi => exact InPlace.ended_reportQuality s id cqi
  | trigger id cs => exact InPlace.ended_trigger s id cs
  | addPacket id channel process packet =>
    simp only [handle, InPlace.operation, InPlace.addPacket, outcome, Sidelink.addPacket,
      EStateM.run_bind, InPlace.run_onPool (HarqTable.InPlace.run_addPacket ..)]
    cases s.harq.addPacket id channel process packet <;> rfl
  | feedback id process =>
    simp only [handle, InPlace.operation, InPlace.feedback, outcome, Sidelink.feedback,
      EStateM.run_bind, InPlace.run_onPool (HarqTable.InPlace.run_release ..)]
    cases s.harq.release id process <;> rfl

theorem perform_eq (s : Sidelink) (op : SidelinkOperation) :
    s.perform op = (fun x => (x.1.scheduler, handedOut x.2)) <$> s.handle op := by
  have hquiet : ∀ {α : Type} {x : Except Refusal α},
      handedOut (x.map fun _ => (none : Option (List Grant))) = [] := by
    intro α x
    cases x <;> rfl
  rw [handle_eq]
  cases op with
  | trigger id cs =>
    simp only [perform, outcome]
    cases s.trigger id cs <;> rfl
  | _ => exact congrArg (fun grants => Except.ok (_, grants)) hquiet.symm

end Sidelink

end Airtime
