import Mikaki.Lib.Calls
import Mikaki.Lib.Table
import Mikaki.Work.AdoptionRecordsSound

/-!
# Submission over the primary store

Requests are kept under their digests, grants and runs under their identifiers.
A guard is issued from the records of one moment; a candidate is prepared
under it and confirmed against a guard evaluated anew from the records of the
moment of confirmation.
-/

namespace Mikaki

open Checks Table

namespace Submission

/-- A guard, and the actor it was issued to. -/
structure Issue where
  guard : SubmissionGuard
  actor : ManagedActor

/-- A prepared candidate, and the place of its guard among the issued ones. -/
structure Preparing where
  issue : Nat
  prepared : PreparedCandidate

structure Store where
  requests : Digest → Option WorkRequest
  grants : Id → Option Grant
  runs : Id → Option Run
  issued : List Issue
  prepared : List Preparing
  confirmed : List Candidate

def Store.empty : Store := ⟨fun _ => none, fun _ => none, fun _ => none, [], [], []⟩

/-- What a submission is authorized on: the records it names and the facts it arrives with. -/
structure Facts where
  run : Id
  grant : Id
  request : Digest
  action : String
  actor : ManagedActor
  task : TaskRepository
  environment : Environment

inductive Call where
  | validate (input : RequestInput) (session : OwnerSession) (environment : Environment)
  | approve (id : String) (request reviewed : Digest) (session : OwnerSession) (task : TaskRepository)
      (environment : Environment)
  | register (actor : ManagedActor) (grant : Id) (request : Digest) (task : TaskRepository) (expiresAt : Nat)
      (environment : Environment)
  | revokeGrant (id : Id)
  | revokeRun (id : Id)
  | authorize (facts : Facts)
  | prepare (issue : Nat) (input : CandidateInput)
  | confirm (index : Nat) (facts : Facts)

/-- No reply where a record is missing. -/
abbrev Reply := Option (Except Denied Unit)

/-- Keep a record under a key that is free. -/
def insertNew {κ α : Type} (t : κ → Option α) (k : κ) (s s' : Store) : Reply × Store :=
  ifFree t k (some (.error .conflict), s) (some (.ok ()), s')

namespace Store

def approve (s : Store) (id : String) (request reviewed : Digest) (session : OwnerSession) (task : TaskRepository)
    (environment : Environment) : Reply × Store :=
  match s.requests request with
  | none => (none, s)
  | some r =>
    match Grant.approve id r reviewed session task environment with
    | .error e => (some (.error e), s)
    | .ok g => insertNew s.grants g.id s { s with grants := put s.grants g.id g }

def register (s : Store) (actor : ManagedActor) (grant : Id) (request : Digest) (task : TaskRepository)
    (expiresAt : Nat) (environment : Environment) : Reply × Store :=
  match s.grants grant, s.requests request with
  | some g, some r =>
    match Run.register actor g r task expiresAt environment with
    | .error e => (some (.error e), s)
    | .ok n => insertNew s.runs n.id s { s with runs := put s.runs n.id n }
  | _, _ => (none, s)

def revokeGrant (s : Store) (id : Id) : Reply × Store :=
  match s.grants id with
  | none => (none, s)
  | some g => (some g.revoke.1, { s with grants := put s.grants id g.revoke.2 })

def revokeRun (s : Store) (id : Id) : Reply × Store :=
  match s.runs id with
  | none => (none, s)
  | some n => (some n.revoke.1, { s with runs := put s.runs id n.revoke.2 })

/-- The guard the current records give. -/
def evaluate (s : Store) (f : Facts) : Option (Except Denied SubmissionGuard) :=
  match s.runs f.run, s.grants f.grant, s.requests f.request with
  | some n, some g, some r => some (n.authorizeSubmission f.action g r f.actor f.task f.environment)
  | _, _, _ => none

def authorize (s : Store) (f : Facts) : Reply × Store :=
  match s.evaluate f with
  | none => (none, s)
  | some (.error e) => (some (.error e), s)
  | some (.ok guard) => (some (.ok ()), { s with issued := s.issued ++ [⟨guard, f.actor⟩] })

variable [Hashes]

def validate (s : Store) (input : RequestInput) (session : OwnerSession) (environment : Environment) : Reply × Store :=
  match input.validate session environment with
  | .error e => (some (.error e), s)
  | .ok r => insertNew s.requests r.digest s { s with requests := put s.requests r.digest r }

def prepare (s : Store) (issue : Nat) (input : CandidateInput) : Reply × Store :=
  match s.issued[issue]? with
  | none => (none, s)
  | some e =>
    match e.guard.prepareCandidate input with
    | .error e => (some (.error e), s)
    | .ok p => (some (.ok ()), { s with prepared := s.prepared ++ [⟨issue, p⟩] })

omit [Hashes] in
/-- The guard is compared with one evaluated on the records of this moment. -/
def confirm (s : Store) (index : Nat) (f : Facts) : Reply × Store :=
  match s.prepared[index]?, s.evaluate f with
  | some p, some (.ok current) =>
    match p.prepared.confirm current with
    | .error e => (some (.error e), s)
    | .ok c => (some (.ok ()), { s with confirmed := s.confirmed ++ [c] })
  | some _, some (.error e) => (some (.error e), s)
  | _, _ => (none, s)

end Store

variable [Hashes]

def step (c : Call) (s : Store) : Reply × Store :=
  match c with
  | .validate input session environment => s.validate input session environment
  | .approve id request reviewed session task environment => s.approve id request reviewed session task environment
  | .register actor grant request task expiresAt environment => s.register actor grant request task expiresAt environment
  | .revokeGrant id => s.revokeGrant id
  | .revokeRun id => s.revokeRun id
  | .authorize facts => s.authorize facts
  | .prepare issue input => s.prepare issue input
  | .confirm index facts => s.confirm index facts

abbrev run : Store → List Call → Store := Calls.run step

/-! ## What one call changes -/

/-- The records a submission was authorized on. -/
structure Evaluated (s : Store) (f : Facts) (guard : SubmissionGuard) (n : Run) (g : Grant) (r : WorkRequest) : Prop where
  run : s.runs f.run = some n
  grant : s.grants f.grant = some g
  request : s.requests f.request = some r
  issued : n.authorizeSubmission f.action g r f.actor f.task f.environment = .ok guard

omit [Hashes] in
theorem evaluate_ok {s : Store} {f : Facts} {guard : SubmissionGuard} (h : s.evaluate f = some (.ok guard)) :
    ∃ n g r, Evaluated s f guard n g r := by
  unfold Store.evaluate at h
  split at h
  · rename_i n g r hn hg hr
    exact ⟨n, g, r, hn, hg, hr, Option.some.inj h⟩
  · cases h

/-- Every change a call can make to the store. -/
inductive Change (s : Store) : Store → Prop
  | same : Change s s
  | request {input : RequestInput} {session : OwnerSession} {e : Environment} {r : WorkRequest}
      (hr : input.validate session e = .ok r) (h : s.requests r.digest = none) :
      Change s { s with requests := put s.requests r.digest r }
  | grant {k : Digest} {id : String} {reviewed : Digest} {session : OwnerSession} {t : TaskRepository}
      {e : Environment} {r : WorkRequest} {g : Grant} (hr : s.requests k = some r)
      (hg : Grant.approve id r reviewed session t e = .ok g) (h : s.grants g.id = none) :
      Change s { s with grants := put s.grants g.id g }
  | run {k : Id} {d : Digest} {a : ManagedActor} {t : TaskRepository} {x : Nat} {e : Environment} {g : Grant}
      {r : WorkRequest} {n : Run} (hg : s.grants k = some g) (hr : s.requests d = some r)
      (hn : Run.register a g r t x e = .ok n) (h : s.runs n.id = none) :
      Change s { s with runs := put s.runs n.id n }
  | revokeGrant {k : Id} {g : Grant} (h : s.grants k = some g) : Change s { s with grants := put s.grants k g.revoke.2 }
  | revokeRun {k : Id} {n : Run} (h : s.runs k = some n) : Change s { s with runs := put s.runs k n.revoke.2 }
  | issue {f : Facts} {guard : SubmissionGuard} {n : Run} {g : Grant} {r : WorkRequest}
      (h : Evaluated s f guard n g r) : Change s { s with issued := s.issued ++ [⟨guard, f.actor⟩] }
  | prepare {i : Nat} {e : Issue} {input : CandidateInput} {p : PreparedCandidate} (he : s.issued[i]? = some e)
      (hp : e.guard.prepareCandidate input = .ok p) : Change s { s with prepared := s.prepared ++ [⟨i, p⟩] }
  | confirm (c : Candidate) : Change s { s with confirmed := s.confirmed ++ [c] }

theorem change_insertNew {κ α : Type} {t : κ → Option α} {k : κ} {s s' : Store} (h : t k = none → Change s s') :
    Change s (insertNew t k s s').2 :=
  ifFree_cases (P := fun x : Reply × Store => Change s x.2) .same h

theorem step_change (c : Call) (s : Store) : Change s (step c s).2 := by
  cases c with
  | validate input session environment =>
    rw [step, Store.validate]
    split
    · exact .same
    · rename_i r hr
      exact change_insertNew (.request hr)
  | approve id request reviewed session task environment =>
    rw [step, Store.approve]
    split
    · exact .same
    · rename_i r hr
      split
      · exact .same
      · rename_i g hg
        exact change_insertNew (.grant hr hg)
  | register actor grant request task expiresAt environment =>
    rw [step, Store.register]
    split
    · rename_i g r hg hr
      split
      · exact .same
      · rename_i n hn
        exact change_insertNew (.run hg hr hn)
    · exact .same
  | revokeGrant id =>
    rw [step, Store.revokeGrant]
    split
    · exact .same
    · rename_i g hg
      exact .revokeGrant hg
  | revokeRun id =>
    rw [step, Store.revokeRun]
    split
    · exact .same
    · rename_i n hn
      exact .revokeRun hn
  | authorize facts =>
    rw [step, Store.authorize]
    split
    · exact .same
    · exact .same
    · rename_i guard h
      obtain ⟨n, g, r, h⟩ := evaluate_ok h
      exact .issue h
  | prepare issue input =>
    rw [step, Store.prepare]
    split
    · exact .same
    · rename_i e he
      split
      · exact .same
      · rename_i p hp
        exact .prepare he hp
  | confirm index facts =>
    rw [step, Store.confirm]
    split
    · split
      · exact .same
      · exact .confirm _
    · exact .same
    · exact .same

end Submission

end Mikaki
