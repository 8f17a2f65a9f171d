import Hnc.Daemon.Scheduler

/-!
# The device table of `hotspotd` and its mDNS worker

`daemon/hotspotd/hotspotd.c` keeps the devices in a table that only the main
loop touches.  A name that is still looked for is labelled pending; the lookups
themselves run in the thread of `mdns_worker.c`, behind a queue of tasks and a
queue of results.  Every buffer for a name has 64 bytes, so that a copy is
whole.
-/

namespace Hnc.Hotspotd

open Posix

/-- `hostname_src`. -/
inductive Source where
  | manual
  | dhcp
  | cached (src : Text)
  | oui
  | mac
  | pending
  | mdns
deriving DecidableEq, Repr

/-- `Device`, without the traffic counters, the interface and the state of the
neighbour. -/
structure Device where
  mac : Text
  ip : Text
  hostname : Text
  hostnameSrc : Source
  lastSeen : Int
  lastResolve : Int
  pendingSince : Int
  active : Bool
deriving DecidableEq, Repr

structure Task where
  mac : Text
  ip : Text
deriving DecidableEq, Repr

/-- `hnc_mdns_result_t`. -/
structure Result where
  mac : Text
  hostname : Text
  success : Bool
deriving DecidableEq, Repr

/-- `HNC_MDNS_QUEUE_SIZE`. -/
def queueSize : Nat := 16

/-- `MAX_DEVICES`. -/
def maxDevices : Nat := 128

structure Daemon where
  devs : List Device
  tasks : List Task
  /-- The task the worker has taken. -/
  working : Option Task
  results : List Result
  lastOfflineCheck : Int
deriving DecidableEq, Repr

/-- Addresses are compared without regard to letter case. -/
def macKey (mac : Text) : Text :=
  mac.map Scheduler.toLower

/-- The slot of the active device with this address. -/
def findDevice (devs : List Device) (mac : Text) : Option Nat :=
  devs.findIdx? fun d => d.active && macKey d.mac = macKey mac

def blankDevice : Device :=
  ⟨[], [], [], .mac, 0, 0, 0, false⟩

/-- The loop of `alloc_device` for a full table. -/
def oldestDevice (devs : List Device) : Nat :=
  (List.range devs.length).foldl (fun oldest i =>
    match devs[i]?, devs[oldest]? with
    | some d, some o => if d.active && d.lastSeen < o.lastSeen then i else oldest
    | _, _ => oldest) 0

/-- `alloc_device`: a slot and what is left in it. -/
def allocDevice (devs : List Device) : Nat × Device :=
  match devs.findIdx? fun d => !d.active with
  | some i => (i, (devs[i]?).getD blankDevice)
  | none => (oldestDevice devs, blankDevice)

/-- What the other sources of a name say about a device. -/
structure Lookups where
  manual : Option Text
  dhcp : Option Text
  cache : Option (Text × Text)
  oui : Option Text
deriving DecidableEq, Repr

/-- `hnc_mac_fallback`. -/
def macFallback (mac : Text) : Text :=
  let noColon := (mac.filter (· ≠ ':')).take 12
  noColon.drop (noColon.length - 8)

/-- `hnc_resolve_hostname_fast`. -/
def resolveHostnameFast (lookups : Lookups) (mac : Text) : Text × Source :=
  match lookups.manual with
  | some name => (name, .manual)
  | none => (macFallback mac, .mac)

def resolveHostnameDhcpOnly (lookups : Lookups) (mac : Text) : Text × Source :=
  match lookups.manual with
  | some name => (name, .manual)
  | none =>
      match lookups.dhcp with
      | some name => (name, .dhcp)
      | none =>
          match lookups.cache with
          | some (name, src) => (name, .cached src)
          | none =>
              match lookups.oui with
              | some name => (name, .oui)
              | none => (macFallback mac, .mac)

/-- `hnc_should_re_resolve`. -/
def shouldReResolve (src : Source) (lastResolve now : Int) : Bool :=
  src = .mac || now - lastResolve ≥ 60

/-- `hnc_pending_ready`. -/
def pendingReady (src : Source) (pendingSince now : Int) : Bool :=
  src = .pending && !(now - pendingSince < 1)

/-- `hnc_mdns_worker_enqueue`: nothing when the queue is full. -/
def enqueue (s : Daemon) (task : Task) : Option Daemon :=
  if s.tasks.length ≥ queueSize then none
  else some { s with tasks := s.tasks ++ [task] }

/-- An entry of the neighbour table, from `/proc/net/arp` or from a netlink
message, with the time and the names there are for it. -/
structure Sighting where
  mac : Text
  ip : Text
  now : Int
  lookups : Lookups
deriving DecidableEq, Repr

def setDevice (s : Daemon) (i : Nat) (d : Device) : Daemon :=
  { s with devs := s.devs.set i d }

/-- A device that is not in the table. -/
def newDevice (left : Device) (seen : Sighting) : Device :=
  let name := resolveHostnameFast seen.lookups seen.mac
  { left with
    mac := seen.mac
    ip := seen.ip
    hostname := name.1
    hostnameSrc := if name.2 = .mac then .pending else name.2
    lastSeen := seen.now
    lastResolve := seen.now
    pendingSince := if name.2 = .mac then seen.now else left.pendingSince
    active := true }

/-- The device is there: the part that `scan_arp` and `nl_process` write in any
case. -/
def seenAgain (d : Device) (seen : Sighting) : Device :=
  { d with ip := seen.ip, lastSeen := seen.now, active := true }

def renamed (d : Device) (seen : Sighting) : Device :=
  let name := resolveHostnameDhcpOnly seen.lookups seen.mac
  { d with hostname := name.1, hostnameSrc := name.2, lastResolve := seen.now }

/-- The part of `scan_arp` and of `nl_process` for one device that is there.
The device of an entry is found again for a new lookup of its name when it has
none, or every minute. -/
def sight (s : Daemon) (seen : Sighting) : Daemon :=
  match findDevice s.devs seen.mac with
  | none =>
      let slot := allocDevice s.devs
      setDevice s slot.1 (newDevice slot.2 seen)
  | some i =>
      match s.devs[i]? with
      | none => s
      | some d =>
          if shouldReResolve d.hostnameSrc d.lastResolve seen.now then
            let e := renamed d seen
            if e.hostnameSrc = .mac ∧ seen.ip ≠ [] then
              match enqueue s ⟨seen.mac, seen.ip⟩ with
              | some queued =>
                  setDevice queued i
                    { seenAgain e seen with
                      hostnameSrc := .pending
                      pendingSince := seen.now }
              | none => setDevice s i (seenAgain e seen)
            else setDevice s i (seenAgain e seen)
          else setDevice s i (seenAgain d seen)

/-- A netlink message that takes a device away. -/
def lose (s : Daemon) (mac : Text) : Daemon :=
  match findDevice s.devs mac with
  | none => s
  | some i => { s with devs := s.devs.modify i fun d => { d with active := false } }

/-- The choice of `process_pending_mdns`: of the devices that are ready, the
first of those that are pending the longest. -/
def oldestPending (devs : List Device) (now : Int) : Option Nat :=
  (List.range devs.length).foldl (fun oldest i =>
    match devs[i]? with
    | none => oldest
    | some d =>
        if !d.active || !pendingReady d.hostnameSrc d.pendingSince now then
          oldest
        else
          match oldest.bind fun j => devs[j]? with
          | none => some i
          | some o => if d.pendingSince < o.pendingSince then some i else oldest)
    none

def processPendingMdns (s : Daemon) (now : Int) (lookups : Lookups) : Daemon :=
  match oldestPending s.devs now with
  | none => s
  | some i =>
      { s with
        devs := s.devs.modify i fun d =>
          let name := resolveHostnameDhcpOnly lookups d.mac
          { d with
            hostname := name.1
            hostnameSrc := name.2
            lastResolve := now
            pendingSince := 0 } }

/-- What a drained result does to a device. -/
def answered (r : Result) (d : Device) : Device :=
  if d.hostnameSrc ≠ .pending then d
  else if r.success then
    { d with hostname := r.hostname, hostnameSrc := .mdns }
  else { d with hostname := macFallback d.mac, hostnameSrc := .mac }

def applyResult (devs : List Device) (r : Result) : List Device :=
  match findDevice devs r.mac with
  | none => devs
  | some i => devs.modify i (answered r)

/-- `hnc_mdns_worker_drain_results` and the loop over what it took. -/
def drainResults (s : Daemon) : Daemon :=
  { s with
    devs := (s.results.take queueSize).foldl applyResult s.devs
    results := s.results.drop queueSize }

/-- The clean-up of devices that were not seen for 90 seconds. -/
def offlineCheck (s : Daemon) (now : Int) : Daemon :=
  if now - s.lastOfflineCheck ≥ 30 then
    { s with
      devs := s.devs.map fun d =>
        if d.active && now - d.lastSeen > 90 then { d with active := false }
        else d
      lastOfflineCheck := now }
  else s

/-- The worker takes the next task. -/
def takeTask (s : Daemon) : Daemon :=
  match s.working, s.tasks with
  | none, task :: rest => { s with working := some task, tasks := rest }
  | _, _ => s

/-- `worker_push_result`: a result for which there is no room is dropped. -/
def pushResult (s : Daemon) (r : Result) : Daemon :=
  if s.results.length ≥ queueSize then s
  else { s with results := s.results ++ [r] }

/-- The lookup of the worker ends, with the name it found. -/
def finishTask (s : Daemon) (found : Option Text) : Daemon :=
  match s.working with
  | none => s
  | some task =>
      match found with
      | some name => pushResult { s with working := none } ⟨task.mac, name, true⟩
      | none => pushResult { s with working := none } ⟨task.mac, [], false⟩

/-- One step of the main loop or of the worker. -/
inductive Event where
  | takeTask
  | finishTask (found : Option Text)
  | sight (seen : Sighting)
  | lose (mac : Text)
  | processPendingMdns (now : Int) (lookups : Lookups)
  | drainResults
  | offlineCheck (now : Int)
deriving DecidableEq, Repr

def act (s : Daemon) : Event → Daemon
  | .takeTask => takeTask s
  | .finishTask found => finishTask s found
  | .sight seen => sight s seen
  | .lose mac => lose s mac
  | .processPendingMdns now lookups => processPendingMdns s now lookups
  | .drainResults => drainResults s
  | .offlineCheck now => offlineCheck s now

inductive WorkerEvent where
  | takeTask
  | finishTask (found : Option Text)
deriving DecidableEq, Repr

def WorkerEvent.event : WorkerEvent → Event
  | .takeTask => .takeTask
  | .finishTask found => .finishTask found

/-- A step while the main loop reads `/proc/net/arp`. -/
inductive ScanEvent where
  | entry (seen : Sighting)
  | worker (event : WorkerEvent)
deriving DecidableEq, Repr

def ScanEvent.event : ScanEvent → Event
  | .entry seen => .sight seen
  | .worker event => event.event

/-- A step while the main loop reads netlink messages. -/
inductive NetlinkEvent where
  | entry (seen : Sighting)
  | gone (mac : Text)
  | worker (event : WorkerEvent)
deriving DecidableEq, Repr

def NetlinkEvent.event : NetlinkEvent → Event
  | .entry seen => .sight seen
  | .gone mac => .lose mac
  | .worker event => event.event

/-- One iteration of the main loop, with the steps of the worker between its
parts. -/
structure Iteration where
  scan : List ScanEvent
  pendingNow : Int
  pendingLookups : Lookups
  lookups : List WorkerEvent
  checkNow : Int
  netlink : List NetlinkEvent

/-- The steps of an iteration before it drains the results. -/
def Iteration.front (it : Iteration) : List Event :=
  it.scan.map ScanEvent.event ++
    .processPendingMdns it.pendingNow it.pendingLookups ::
      it.lookups.map WorkerEvent.event

/-- The steps behind that. -/
def Iteration.back (it : Iteration) : List Event :=
  .offlineCheck it.checkNow :: it.netlink.map NetlinkEvent.event

def Iteration.events (it : Iteration) : List Event :=
  it.front ++ .drainResults :: it.back

end Hnc.Hotspotd
