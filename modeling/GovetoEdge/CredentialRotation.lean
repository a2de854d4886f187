import GovetoEdge.JobQueue

/-!
# The rotation of a node's credential

An agent proves who it is with a certificate.  The control plane keeps the
serial of the node's certificate, and that of the one before, in the row of the
node in `node_credentials`.  When the certificate is about to expire the gateway
asks the agent for a certificate request; the agent writes a new key to its
identity file before it sends the request, and the certificate it gets back
before it uses it.

The parties are the row, the agent with its identity file, and the gateway
sessions.  The agent has one session at a time, but the gateway may hold on to
sessions the agent has left, and still read what was sent on them.  Messages of
a stream arrive in order or not at all.  What stands for what:

* a key pair is a number; a certificate request is its key pair, and so is the
  digest of the request (`rotation_csr_sha256`);
* serials are random numbers of 128 bits and taken to be new whenever one is
  made, and so are keys;
* the identity file is replaced by `os.Rename`: it is written as a whole or not
  at all, and memory follows only when it was written.
-/

namespace CredentialRotation

open GoStrings (second)

abbrev Key := Nat
abbrev Serial := Nat
abbrev SessionId := Nat

/-- A certificate of the agent. -/
structure Certificate where
  serial : Serial
  key : Key
  notAfter : Int
deriving DecidableEq

/-- A row of `node_credentials`, with whether the node is disabled. -/
structure CredentialRow where
  serial : Option Serial
  notAfter : Option Int
  previousSerial : Option Serial
  previousValidUntil : Option Int
  rotationCSR : Option Key
  rotationCertificate : Option Certificate
  revokedAt : Option Int
  disabled : Bool
deriving DecidableEq

/-- `Identity`, without what never changes. -/
structure Identity where
  certificate : Certificate
  privateKey : Key
  pending : Option Key
deriving DecidableEq

/-- The messages of the gateway that matter here. -/
inductive ServerMessage
  | rotateCredential
  | credential (certificate : Certificate)
deriving DecidableEq

/-- A gateway session, with what is under way on its stream. -/
structure Session where
  certificate : Certificate
  rotateRequested : Bool
  live : Bool
  toServer : List Key
  toAgent : List ServerMessage
deriving DecidableEq

/-- The agent process: its copy of the identity, and its session with the key
it has sent a request for. -/
structure Agent where
  identity : Identity
  session : Option (SessionId × Option Key)
deriving DecidableEq

/-- Both parties and their sessions. -/
structure State where
  row : CredentialRow
  disk : Identity
  agent : Option Agent
  sessions : SessionId → Option Session
  nextSession : SessionId
  nextSerial : Serial
  nextKey : Key

/-- A node after its installation. -/
def init (notAfter : Int) : State where
  row := ⟨some 0, some notAfter, none, none, none, none, none, false⟩
  disk := ⟨⟨0, 0, notAfter⟩, 0, none⟩
  agent := none
  sessions := fun _ => none
  nextSession := 0
  nextSerial := 1
  nextKey := 1

/-- One session goes on. -/
def State.setSession (s : State) (sid : SessionId) (session : Session) : State :=
  { s with sessions := fun i => if i = sid then some session else s.sessions i }

def hour : Int := 3600 * second

/-- How long before its end a certificate is renewed. -/
def rotateBefore : Int := 7 * 24 * hour

/-- How long it is valid. -/
def nodeCertificateValidity : Int := 30 * 24 * hour

/-- `authorize`. -/
def authorize (row : CredentialRow) (certificate : Certificate) (now : Int) :
    Except String Unit :=
  if row.disabled then .error "node credential is not registered"
  else if row.revokedAt.isSome then .error "node credential is revoked"
  else if row.serial = some certificate.serial ∨ row.previousSerial = some certificate.serial ∧
      ∃ deadline ∈ row.previousValidUntil, now < deadline then .ok ()
  else .error "node certificate has been rotated or revoked"

/-- `Authority.issue`. -/
def issue (serial : Serial) (csr : Key) (now : Int) : Certificate :=
  ⟨serial, csr, now - 300 * second + nodeCertificateValidity⟩

/-- What `rotateCredential` returns. -/
structure Issued where
  certificate : Certificate
  serial : Serial
  notAfter : Int
deriving DecidableEq

/-- `rotateCredential`: `candidate` is the certificate that was signed for the
request before the transaction began. -/
def rotateCredential (row : CredentialRow) (connectionSerial : Serial) (csr : Key)
    (candidate : Certificate) (now : Int) : Except String (CredentialRow × Issued) :=
  if row.disabled ∨ row.revokedAt.isSome then
    .error "node credential is unavailable or revoked"
  else if row.rotationCSR = some csr then
    match row.serial, row.notAfter, row.rotationCertificate with
    | some serial, some notAfter, some certificate => .ok (row, ⟨certificate, serial, notAfter⟩)
    | _, _, _ => .error "stored credential rotation is incomplete"
  else if row.serial = some connectionSerial then
    .ok ({ row with
      previousSerial := row.serial
      previousValidUntil := some (now + 24 * hour)
      serial := some candidate.serial
      notAfter := some candidate.notAfter
      rotationCSR := some csr
      rotationCertificate := some candidate }, ⟨candidate, candidate.serial, candidate.notAfter⟩)
  else .error "credential rotation was superseded by another session"

/-- The session asks for a certificate request, once. -/
def askRotation (s : State) (sid : SessionId) (now : Int) : Option State :=
  (s.sessions sid).bind fun session =>
    if session.live ∧ !session.rotateRequested ∧
        session.certificate.notAfter - now ≤ rotateBefore then
      some (s.setSession sid { session with
        rotateRequested := true, toAgent := session.toAgent ++ [.rotateCredential] })
    else none

/-- The session takes the next request of the agent; an error ends it. -/
def serve (s : State) (sid : SessionId) (now : Int) : Option State :=
  (s.sessions sid).bind fun session =>
    match session.live, session.toServer with
    | true, csr :: rest =>
      let candidate := issue s.nextSerial csr now
      let signed := { s with nextSerial := s.nextSerial + 1 }
      match rotateCredential s.row session.certificate.serial csr candidate now with
      | .ok (row, issued) =>
        some ({ signed with row := row }.setSession sid { session with
          toServer := rest
          toAgent := session.toAgent ++ [ServerMessage.credential issued.certificate] })
      | .error _ => some (signed.setSession sid { session with toServer := rest, live := false })
    | _, _ => none

/-- The agent opens a session with the certificate of its identity. -/
def connect (s : State) (now : Int) : Option State :=
  s.agent.bind fun agent =>
    match agent.session, authorize s.row agent.identity.certificate now with
    | none, .ok () =>
      some ({ s with
        agent := some { agent with session := some (s.nextSession, none) }
        nextSession := s.nextSession + 1 }.setSession s.nextSession
          ⟨agent.identity.certificate, false, true, [], []⟩)
    | _, _ => none

/-- The agent leaves its session. -/
def leave (s : State) : State :=
  { s with agent := s.agent.map fun agent => { agent with session := none } }

/-- `prepareCredentialRequest`: the request that is sent, and the identity after
it; nothing if the identity cannot be written. -/
def prepareCredentialRequest (identity : Identity) (fresh : Key) (writable : Bool) :
    Option (Key × Identity) :=
  match identity.pending with
  | some key => some (key, identity)
  | none => if writable then some (fresh, { identity with pending := some fresh }) else none

/-- The agent takes the next message of its session. -/
def receive (s : State) (writable : Bool) : Option State :=
  s.agent.bind fun agent => agent.session.bind fun (sid, pendingPrivateKey) =>
    (s.sessions sid).bind fun session =>
      match session.toAgent with
      | [] => none
      | .rotateCredential :: rest =>
        let taken := s.setSession sid { session with toAgent := rest }
        match pendingPrivateKey with
        | some _ => some taken
        | none =>
          match prepareCredentialRequest agent.identity s.nextKey writable with
          | none => some (leave taken)
          | some (key, identity) =>
            some ({ taken with
              disk := identity
              agent := some ⟨identity, some (sid, some key)⟩
              nextKey := s.nextKey + 1 }.setSession sid
                { session with toAgent := rest, toServer := session.toServer ++ [key] })
      | .credential certificate :: rest =>
        let taken := s.setSession sid { session with toAgent := rest }
        match pendingPrivateKey with
        | none => some (leave taken)
        | some key =>
          -- `WriteIdentity` refuses a certificate that is not for the key
          if writable ∧ certificate.key = key then
            let updated : Identity := ⟨certificate, key, none⟩
            some { taken with disk := updated, agent := some ⟨updated, none⟩ }
          else some (leave taken)

/-- The steps of the agent and of the control plane. -/
inductive Action
  /-- the agent starts and reads its identity -/
  | start
  /-- the agent stops or crashes -/
  | stop
  | connect (now : Int)
  | leave
  | receive (writable : Bool)
  | askRotation (sid : SessionId) (now : Int)
  | serve (sid : SessionId) (now : Int)
  /-- the gateway closes a session -/
  | close (sid : SessionId)
  | revoke (now : Int)
  | setDisabled (disabled : Bool)

/-- One step. -/
def step (s : State) : Action → Option State
  | .start => if s.agent = none then some { s with agent := some ⟨s.disk, none⟩ } else none
  | .stop => some { s with agent := none }
  | .connect now => CredentialRotation.connect s now
  | .leave => some (CredentialRotation.leave s)
  | .receive writable => CredentialRotation.receive s writable
  | .askRotation sid now => CredentialRotation.askRotation s sid now
  | .serve sid now => CredentialRotation.serve s sid now
  | .close sid =>
    (s.sessions sid).map fun session => s.setSession sid { session with live := false }
  | .revoke now => some { s with row := { s.row with revokedAt := some now } }
  | .setDisabled disabled => some { s with row := { s.row with disabled := disabled } }

/-- The certificate the agent would present next. -/
def State.presents (s : State) : Certificate :=
  match s.agent with
  | some agent => agent.identity.certificate
  | none => s.disk.certificate

end CredentialRotation
