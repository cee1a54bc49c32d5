import Mathlib.Tactic.Common
import Phongo.Lib.Keyed
import Phongo.Manager.World

/-! Application performance monitoring: the registries of subscribers, and the events that are
dispatched to them while their methods run any code, events included. -/
namespace Phongo
open OrderedTable

/-- The interfaces a class of subscribers implements; CommandSubscriber extends Subscriber. -/
inductive SubscriberClass
  | other | subscriber | commandSubscriber
  deriving DecidableEq

inductive SubscriberInterface
  | subscriber | commandSubscriber
  deriving DecidableEq

/-- An object that may be given as subscriber. Its handle is used again once it is freed. -/
structure SubscriberObject where
  id : ℕ
  handle : ℕ
  objClass : SubscriberClass
  deriving DecidableEq

/-- `instanceof_function` -/
def SubscriberObject.instanceOf (o : SubscriberObject) : SubscriberInterface → Bool
  | .subscriber => o.objClass ≠ .other
  | .commandSubscriber => o.objClass = .commandSubscriber

abbrev Subscribers := Table ℕ SubscriberObject

def subscriberClassName : Bytes := ascii "MongoDB\\Driver\\Monitoring\\Subscriber"

/-- `phongo_apm_check_args_for_add_and_remove` -/
def checkArgsForAddAndRemove (subscribers : Option Subscribers)
    (subscriber : Option SubscriberObject) : Except Exception (Subscribers × SubscriberObject) :=
  match subscribers,subscriber with
  | none,_ =>
    .error (.phongo .unexpectedValue "Subscriber HashTable is not initialized" [])
  | some subscribers,some subscriber =>
    if subscriber.instanceOf .subscriber then .ok (subscribers,subscriber)
    else .error (.phongo .unexpectedValue "Subscriber is not an instance of %s"
      [.bytes subscriberClassName])
  | some _,none =>
    .error (.phongo .unexpectedValue "Subscriber is not an instance of %s"
      [.bytes subscriberClassName])

/-- `phongo_apm_add_subscriber` -/
def apmAddSubscriber (subscribers : Option Subscribers) (subscriber : Option SubscriberObject) :
    Except Exception Subscribers := do
  let (subscribers,subscriber) ← checkArgsForAddAndRemove subscribers subscriber
  return insertNew SubscriberObject.handle subscribers subscriber

/-- `phongo_apm_remove_subscriber` -/
def apmRemoveSubscriber (subscribers : Option Subscribers) (subscriber : Option SubscriberObject) :
    Except Exception Subscribers := do
  let (subscribers,subscriber) ← checkArgsForAddAndRemove subscribers subscriber
  return erase subscribers subscriber.handle

/-- `phongo_apm_add_subscribers_to_notify` -/
def addSubscribersToNotify (subscriberCe : SubscriberInterface) (source target : Subscribers) :
    Subscribers :=
  (values source).foldl
    (fun target subscriber =>
      if subscriber.instanceOf subscriberCe then
        insertNew SubscriberObject.handle target subscriber
      else target) target

inductive CommandEvent
  | started | succeeded | failed
  deriving DecidableEq

structure ApmEvent where
  id : ℕ
  kind : CommandEvent
  /-- the APM context -/
  client : ℕ
  manager : ℕ

/-- A call of `phongo_apm_dispatch_event` that has not returned. -/
structure Dispatch where
  event : ApmEvent
  subscribers : Subscribers
  /-- what the loop has not come to yet -/
  remaining : List SubscriberObject
  /-- a subscriber's method is running -/
  running : Bool

/-- A subscriber's method that was called, and what was pending then. -/
structure ApmCall where
  event : ApmEvent
  subscriber : SubscriberObject
  exceptions : Pending

/-- A process in a request, with its subscribers. -/
structure Apm where
  process : Process
  /-- the objects that are alive -/
  objects : List SubscriberObject
  /-- the number of objects made so far -/
  made : ℕ
  /-- `MONGODB_G(subscribers)` -/
  subscribers : Option Subscribers
  /-- the `subscribers` of the Manager objects, where not NULL -/
  managerSubscribers : Table ℕ Subscribers
  /-- `EG(exception)` -/
  exceptions : Pending
  /-- the event objects that are alive -/
  events : List ApmEvent
  /-- innermost first -/
  dispatches : List Dispatch
  /-- the number of events so far -/
  notified : ℕ
  /-- oldest first -/
  calls : List ApmCall
  /-- the events whose loop is over, and what was pending then -/
  ended : List (ℕ × Pending)

/-- What user code does. `rejection` is what PHP throws for a parameter of a wrong type. -/
inductive UserAction (Uri : Type)
  | create (handle : ℕ) (objClass : SubscriberClass)
  | free (id : ℕ)
  | addSubscriber (manager : Option ℕ) (subscriber : Option SubscriberObject)
    (rejection : Exception)
  | removeSubscriber (manager : Option ℕ) (subscriber : Option SubscriberObject)
    (rejection : Exception)
  | act (action : Action Uri)
  | throw (e : Exception)
  | catch
  | freeEvent (id : ℕ)
  /-- libmongoc has an event while the driver is called -/
  | notify (kind : CommandEvent) (client : ℕ)

/-- What happens in a process: user code makes a step, or the innermost dispatch goes on. -/
inductive ApmAction (Uri : Type)
  | user (action : UserAction Uri)
  /-- the method that runs returns -/
  | return
  /-- the loop looks for the next subscriber -/
  | next

/-- Methods return and loops go on, but no user code does anything. -/
def ApmAction.Idle {Uri : Type} : ApmAction Uri → Prop
  | .user _ => False
  | _ => True

namespace Apm

def start (process : Process) : Apm := ⟨process,[],0,some [],[],[],[],[],0,[],[]⟩

/-- The Manager is in `MONGODB_G(managers)` and its client is the event's. -/
def holdsClient (s : Apm) (client id : ℕ) : Bool :=
  (s.process.findManager id).any (·.client = some client)

/-- `phongo_apm_get_subscribers_to_notify` -/
def getSubscribersToNotify (s : Apm) (subscriberCe : SubscriberInterface) (client : ℕ) :
    Subscribers :=
  let target := match s.subscribers with
    | some source => addSubscribersToNotify subscriberCe source []
    | none => []
  s.process.managers.foldl
    (fun target id =>
      match find? s.managerSubscribers id with
      | some source =>
        if s.holdsClient client id then addSubscribersToNotify subscriberCe source target
        else target
      | none => target) target

/-- `phongo_apm_copy_manager_for_client` -/
def copyManagerForClient (s : Apm) (client : ℕ) : Option ℕ :=
  s.process.managers.find? (s.holdsClient client)

/-- `phongo_apm_command_started`, `phongo_apm_command_succeeded` or `phongo_apm_command_failed`,
up to the first subscriber. -/
def notify (s : Apm) (kind : CommandEvent) (client : ℕ) : Apm :=
  let subscribers := s.getSubscribersToNotify .commandSubscriber client
  let id := s.notified
  let s := { s with notified := s.notified + 1 }
  if subscribers.length = 0 then s
  else
    match s.copyManagerForClient client with
    | none => { s with
        exceptions := throwException .unexpectedValue
          "Found no Manager for client in APM event context" [] s.exceptions }
    | some manager =>
      let event := ⟨id,kind,client,manager⟩
      { s with events := s.events ++ [event]
               dispatches := ⟨event,subscribers,values subscribers,false⟩::s.dispatches }

/-- The loop of `phongo_apm_dispatch_event`. -/
def next (s : Apm) (d : Dispatch) (ds : List Dispatch) : Apm :=
  match d.remaining with
  | [] => { s with dispatches := ds, ended := s.ended ++ [(d.event.id,s.exceptions)] }
  | subscriber::rest =>
    if s.exceptions ≠ [] then
      { s with dispatches := ds, ended := s.ended ++ [(d.event.id,s.exceptions)] }
    else
      { s with dispatches := { d with remaining := rest, running := true }::ds
               calls := s.calls ++ [⟨d.event,subscriber,s.exceptions⟩] }

def inUserCode (s : Apm) : Bool := s.dispatches.head?.all (·.running)

def tables (s : Apm) : List Subscribers :=
  s.subscribers.toList ++ s.managerSubscribers.map Prod.snd ++ s.dispatches.map (·.subscribers)

def throw (s : Apm) (e : Exception) : Apm := { s with exceptions := e::s.exceptions }

/-- A method that takes a Subscriber, and that changes a HashTable or throws. -/
def withSubscriber (s : Apm) (subscriber : Option SubscriberObject) (rejection : Exception)
    (change : Except Exception Subscribers) (put : Subscribers → Apm) : Apm :=
  if subscriber.any (·.instanceOf .subscriber) then
    match change with
    | .ok subscribers => put subscribers
    | .error e => s.throw e
  else s.throw rejection

/-- `MongoDB\Driver\Monitoring\addSubscriber` or `Manager::addSubscriber` -/
def addSubscriber (s : Apm) (manager : Option ℕ) (subscriber : Option SubscriberObject)
    (rejection : Exception) : Apm :=
  match manager with
  | none => s.withSubscriber subscriber rejection (apmAddSubscriber s.subscribers subscriber)
      fun subscribers => { s with subscribers := some subscribers }
  | some id => s.withSubscriber subscriber rejection
      (apmAddSubscriber (some ((find? s.managerSubscribers id).getD [])) subscriber)
      fun subscribers => { s with
        managerSubscribers := update s.managerSubscribers id subscribers }

/-- `MongoDB\Driver\Monitoring\removeSubscriber` or `Manager::removeSubscriber` -/
def removeSubscriber (s : Apm) (manager : Option ℕ) (subscriber : Option SubscriberObject)
    (rejection : Exception) : Apm :=
  match manager with
  | none => s.withSubscriber subscriber rejection (apmRemoveSubscriber s.subscribers subscriber)
      fun subscribers => { s with subscribers := some subscribers }
  | some id =>
    match find? s.managerSubscribers id with
    | none => if subscriber.any (·.instanceOf .subscriber) then s else s.throw rejection
    | some source => s.withSubscriber subscriber rejection
        (apmRemoveSubscriber (some source) subscriber)
        fun subscribers => { s with
          managerSubscribers := update s.managerSubscribers id subscribers }

/-- The Manager and the subscriber given to a method are alive. -/
def areAlive (s : Apm) (manager : Option ℕ) (subscriber : Option SubscriberObject) : Bool :=
  manager.all (fun id => (s.process.findManager id).isSome) && subscriber.all (· ∈ s.objects)

/-- The destruction of a Manager object destroys its HashTable; an event keeps its Manager. -/
def act {Uri : Type} (s : Apm) : Action Uri → Option Apm
  | .freeManager id =>
    if s.events.any (·.manager = id) then none
    else (s.process.run (.freeManager id : Action Uri)).map fun process =>
      { s with process := process, managerSubscribers := erase s.managerSubscribers id }
  | action => (s.process.run action).map fun process => { s with process := process }

def runUser {Uri : Type} (s : Apm) : UserAction Uri → Option Apm
  | .create handle objClass =>
    if s.objects.any (·.handle = handle) then none
    else some { s with objects := s.objects ++ [⟨s.made,handle,objClass⟩], made := s.made + 1 }
  | .free id =>
    if s.tables.any fun t => (values t).any (·.id = id) then none
    else some { s with objects := s.objects.filter (·.id ≠ id) }
  | .addSubscriber manager subscriber rejection =>
    if s.areAlive manager subscriber then some (s.addSubscriber manager subscriber rejection)
    else none
  | .removeSubscriber manager subscriber rejection =>
    if s.areAlive manager subscriber then some (s.removeSubscriber manager subscriber rejection)
    else none
  | .act action => s.act action
  | .throw e => some (s.throw e)
  | .catch => some { s with exceptions := [] }
  | .freeEvent id =>
    if s.dispatches.any (·.event.id = id) then none
    else some { s with events := s.events.filter (·.id ≠ id) }
  | .notify kind client => some (s.notify kind client)

def run {Uri : Type} (s : Apm) : ApmAction Uri → Option Apm
  | .user action => if s.inUserCode then s.runUser action else none
  | .return =>
    match s.dispatches with
    | d::ds => if d.running then some { s with dispatches := { d with running := false }::ds }
      else none
    | [] => none
  | .next =>
    match s.dispatches with
    | d::ds => if d.running then none else some (s.next d ds)
    | [] => none

def Step {Uri : Type} (s : Apm) (action : ApmAction Uri) (s' : Apm) : Prop :=
  s.run action = some s'

end Apm

end Phongo
