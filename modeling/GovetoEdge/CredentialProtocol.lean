import GovetoEdge.CredentialRotation
import GovetoEdge.Fallible

/-!
# A rotation never locks the node out

Either the row holds the serial of the agent's certificate, or the row is one
rotation ahead: then it holds that serial as the previous one, and what it is
ahead by is the request the agent has written to its identity file.  The
invariant `Inv` says this together with what is under way on the streams.

* `serial_recorded`: the serial of the certificate the agent would present next
  is in the row; a request that is repeated gets the same certificate and
  leaves the row alone.
-/

namespace CredentialRotation

open List Runs Fallible

variable {s t : State} {a : Action} {ops : List Action}

/-- The row holds the certificate of the identity, and knows nothing of a request
that may be prepared there. -/
structure Level (row : CredentialRow) (disk : Identity) : Prop where
  serial : row.serial = some disk.certificate.serial
  unused : ∀ key, disk.pending = some key → row.rotationCSR ≠ some key

/-- The row is ahead by the request that is prepared in the identity. -/
structure Ahead (row : CredentialRow) (disk : Identity) : Prop where
  previous : row.previousSerial = some disk.certificate.serial
  serial : row.serial ≠ some disk.certificate.serial
  request : ∃ key, disk.pending = some key ∧ row.rotationCSR = some key

/-- The row holds the certificate of its last rotation. -/
structure Stored (row : CredentialRow) : Prop where
  serial : row.serial.isSome
  notAfter : row.notAfter.isSome
  certificate : row.rotationCSR.isSome →
    ∃ c, row.rotationCertificate = some c ∧ row.serial = some c.serial

/-- A session of the gateway: it was opened with a certificate the agent had, and
what is under way to the gateway on a session with the agent's certificate is
the request the agent has prepared. -/
structure Session.Sound (row : CredentialRow) (disk : Identity) (nextSerial : Serial)
    (nextKey : Key) (session : Session) : Prop where
  presented : row.serial = some session.certificate.serial →
    session.certificate.serial = disk.certificate.serial
  requests : session.certificate.serial = disk.certificate.serial →
    ∀ csr ∈ session.toServer, disk.pending = some csr
  made : session.certificate.serial < nextSerial
  sent : ∀ csr ∈ session.toServer, csr < nextKey

/-- The agent's own session. -/
structure Session.Own (row : CredentialRow) (disk : Identity) (pendingPrivateKey : Option Key)
    (session : Session) : Prop where
  certificate : session.certificate.serial = disk.certificate.serial
  pending : ∀ key, pendingPrivateKey = some key → disk.pending = some key
  credentials : ∀ c, .credential c ∈ session.toAgent →
    Ahead row disk ∧ row.rotationCertificate = some c

/-- Serials, keys and sessions that exist are not made again. -/
structure Made (s : State) : Prop where
  certificate : s.disk.certificate.serial < s.nextSerial
  serial : ∀ serial, s.row.serial = some serial → serial < s.nextSerial
  pending : ∀ key, s.disk.pending = some key → key < s.nextKey
  request : ∀ key, s.row.rotationCSR = some key → key < s.nextKey
  session : ∀ sid, s.nextSession ≤ sid → s.sessions sid = none

/-- The invariant of row, agent and streams. -/
structure Inv (s : State) : Prop where
  made : Made s
  stored : Stored s.row
  standing : Level s.row s.disk ∨ Ahead s.row s.disk
  memory : ∀ agent, s.agent = some agent → agent.identity = s.disk
  sound : ∀ sid session, s.sessions sid = some session →
    session.Sound s.row s.disk s.nextSerial s.nextKey
  own : ∀ agent sid key, s.agent = some agent → agent.session = some (sid, key) →
    ∃ session, s.sessions sid = some session ∧ session.Own s.row s.disk key

/-- The state after the installation. -/
theorem inv_init (notAfter : Int) : Inv (init notAfter) where
  made := ⟨Nat.zero_lt_one, by simp [init], by simp [init], by simp [init], by simp [init]⟩
  stored := ⟨rfl, rfl, by simp [init]⟩
  standing := .inl ⟨rfl, by simp [init]⟩
  memory := by simp [init]
  sound := by simp [init]
  own := by simp [init]

@[simp] theorem setSession_self (s : State) (sid : SessionId) (session : Session) :
    (s.setSession sid session).sessions sid = some session := by
  simp [State.setSession]

variable {sid : SessionId} {session session' : Session} {disk : Identity} {row row' : CredentialRow}
  {now : Int} {csr key : Key} {serial : Serial} {writable : Bool} {c : Certificate}

theorem setSession_ne (s : State) {i : SessionId} (session : Session) (h : i ≠ sid) :
    (s.setSession sid session).sessions i = s.sessions i := by
  simp [State.setSession, h]

/-- A session after a set is the new one, or one of before. -/
theorem setSession_cases {i : SessionId}
    (h : (s.setSession sid session).sessions i = some session') :
    i = sid ∧ session' = session ∨ s.sessions i = some session' := by
  by_cases hi : i = sid
  · rw [hi, setSession_self] at h
    exact .inl ⟨hi, (Option.some.inj h).symm⟩
  · rw [setSession_ne s session hi] at h
    exact .inr h

/-- The invariant after a step on one session. -/
theorem Inv.setSession (hinv : Inv s) (hs : s.sessions sid = some session)
    (hsound : session'.Sound s.row s.disk s.nextSerial s.nextKey)
    (hself : ∀ key, session.Own s.row s.disk key → session'.Own s.row s.disk key) :
    Inv (s.setSession sid session') := by
  refine { hinv with made := { hinv.made with session := fun i hi => ?_ }, sound := ?_, own := ?_ }
  · have hne : i ≠ sid := by
      rintro rfl
      rw [hinv.made.session i hi] at hs
      cases hs
    rw [setSession_ne s session' hne]
    exact hinv.made.session i hi
  · intro i x hx
    rcases setSession_cases hx with ⟨_, rfl⟩ | hx
    · exact hsound
    · exact hinv.sound i x hx
  · intro agent i key hagent hsession
    obtain ⟨x, hx, hown⟩ := hinv.own agent i key hagent hsession
    by_cases hi : i = sid
    · subst hi
      rw [hs] at hx
      exact ⟨session', setSession_self s i session', hself key (Option.some.inj hx ▸ hown)⟩
    · exact ⟨x, (setSession_ne s session' hi).trans hx, hown⟩

/-- The session has the certificate it had, and nothing new under way. -/
structure Session.Less (session' session : Session) : Prop where
  certificate : session'.certificate = session.certificate
  toServer : ∀ csr ∈ session'.toServer, csr ∈ session.toServer
  toAgent : ∀ c, .credential c ∈ session'.toAgent → .credential c ∈ session.toAgent

/-- A session that has less is sound. -/
theorem Session.Sound.less (hsound : session.Sound row disk serial key)
    (h : session'.Less session) : session'.Sound row disk serial key where
  presented := by
    rw [h.certificate]
    exact hsound.presented
  requests := by
    rw [h.certificate]
    exact fun heq csr hcsr => hsound.requests heq csr (h.toServer csr hcsr)
  made := h.certificate ▸ hsound.made
  sent := fun csr hcsr => hsound.sent csr (h.toServer csr hcsr)

/-- A session may lose what it has. -/
theorem Inv.narrow (hinv : Inv s) (hs : s.sessions sid = some session)
    (h : session'.Less session) : Inv (s.setSession sid session') :=
  hinv.setSession hs ((hinv.sound sid session hs).less h) fun _ hown =>
    ⟨h.certificate ▸ hown.certificate, hown.pending,
      fun c hc => hown.credentials c (h.toAgent c hc)⟩

/-- A serial that is made may stay unused. -/
theorem Inv.signed (hinv : Inv s) : Inv { s with nextSerial := s.nextSerial + 1 } :=
  { hinv with
    made := { hinv.made with
      certificate := Nat.lt_succ_of_lt hinv.made.certificate
      serial := fun serial h => Nat.lt_succ_of_lt (hinv.made.serial serial h) }
    sound := fun sid session hs =>
      have hsound := hinv.sound sid session hs
      { hsound with made := Nat.lt_succ_of_lt hsound.made } }

/-- The agent starts, stops or leaves its session. -/
theorem Inv.alone (hinv : Inv s) {agent' : Option Agent}
    (hagent : ∀ agent ∈ agent', agent.identity = s.disk ∧ agent.session = none) :
    Inv { s with agent := agent' } :=
  { hinv with
    made := { hinv.made with }
    memory := fun agent h => (hagent agent h).1
    own := fun agent _ _ h hsession => nomatch (hagent agent h).2.symm.trans hsession }

/-- The agent leaves its session. -/
theorem Inv.leave (hinv : Inv s) : Inv (leave s) := by
  apply hinv.alone
  intro agent h
  obtain ⟨old, hold, rfl⟩ := Option.map_eq_some_iff.mp h
  exact ⟨hinv.memory old hold, rfl⟩

/-- Whether the credential is in force does not matter here. -/
theorem Inv.flags (hinv : Inv s) (revokedAt : Option Int) (disabled : Bool) :
    Inv { s with row := { s.row with revokedAt := revokedAt, disabled := disabled } } := by
  have hahead : Ahead s.row s.disk →
      Ahead { s.row with revokedAt := revokedAt, disabled := disabled } s.disk :=
    fun h => { h with }
  refine { hinv with
    made := { hinv.made with }
    stored := { hinv.stored with }
    standing := hinv.standing.imp (fun h => { h with }) hahead
    sound := fun sid session hs => { hinv.sound sid session hs with }
    own := fun agent sid key h hsession => ?_ }
  obtain ⟨session, hs, hown⟩ := hinv.own agent sid key h hsession
  exact ⟨session, hs, { hown with
    credentials := fun c hc => (hown.credentials c hc).imp_left hahead }⟩

/-- It connects with what is on its disk. -/
theorem inv_connect (hinv : Inv s) (h : connect s now = some t) : Inv t := by
  obtain ⟨agent, hagent, h⟩ := Option.bind_eq_some_iff.mp h
  have hidentity := hinv.memory agent hagent
  split at h
  · cases h
    refine { hinv with
      made := { hinv.made with session := fun sid hsid => ?_ }
      memory := fun agent' hagent' => ?_
      sound := fun sid session hs => ?_
      own := fun agent' sid key hagent' hsession => ?_ }
    · have hlt : s.nextSession < sid := hsid
      rw [setSession_ne _ _ (Nat.ne_of_gt hlt)]
      exact hinv.made.session sid (Nat.le_of_lt hlt)
    · cases hagent'
      exact hidentity
    · rcases setSession_cases hs with ⟨_, rfl⟩ | hs
      · rw [hidentity]
        exact ⟨fun _ => rfl, by simp, hinv.made.certificate, by simp⟩
      · exact hinv.sound sid session hs
    · cases hagent'
      obtain ⟨rfl, rfl⟩ := Prod.mk.inj (Option.some.inj hsession)
      refine ⟨_, setSession_self _ _ _, ?_, by simp, by simp⟩
      rw [hidentity]
      rfl
  · cases h

/-- The certificate that is returned: the stored one for the request of the last
rotation, or the candidate for a rotation. -/
theorem rotateCredential_ok {connectionSerial : Serial} {candidate : Certificate} {issued : Issued}
    (h : rotateCredential row connectionSerial csr candidate now = .ok (row', issued)) :
    row.rotationCSR = some csr ∧ row' = row ∧ row.rotationCertificate = some issued.certificate ∨
      row.rotationCSR ≠ some csr ∧ row.serial = some connectionSerial ∧
        issued.certificate = candidate ∧ row' = { row with
          previousSerial := row.serial
          previousValidUntil := some (now + 24 * hour)
          serial := some candidate.serial
          notAfter := some candidate.notAfter
          rotationCSR := some csr
          rotationCertificate := some candidate } := by
  unfold rotateCredential at h
  obtain ⟨-, h⟩ := ok_of_guard h
  split at h
  · next hrepeated =>
    split at h
    · next hcertificate =>
      obtain ⟨rfl, rfl⟩ := Prod.mk.inj (Except.ok.inj h)
      exact .inl ⟨hrepeated, rfl, hcertificate⟩
    · cases h
  · next hnew =>
    obtain ⟨hserial, h⟩ := ok_of_require h
    obtain ⟨rfl, rfl⟩ := Prod.mk.inj (Except.ok.inj h)
    exact .inr ⟨hnew, hserial, rfl, rfl⟩

/-- The request a session takes, and what it makes of it. -/
theorem serve_eq_some (h : serve s sid now = some t) :
    ∃ session csr rest, s.sessions sid = some session ∧ session.toServer = csr :: rest ∧
      ((∃ message, rotateCredential s.row session.certificate.serial csr
          (issue s.nextSerial csr now) now = .error message ∧
          t = State.setSession { s with nextSerial := s.nextSerial + 1 } sid
            { session with toServer := rest, live := false }) ∨
        ∃ row issued, rotateCredential s.row session.certificate.serial csr
          (issue s.nextSerial csr now) now = .ok (row, issued) ∧
          t = State.setSession { s with nextSerial := s.nextSerial + 1, row := row } sid
            { session with
              toServer := rest
              toAgent := session.toAgent ++ [.credential issued.certificate] }) := by
  obtain ⟨session, hs, h⟩ := Option.bind_eq_some_iff.mp h
  split at h
  · next csr rest _ hqueue =>
    refine ⟨session, csr, rest, hs, hqueue, ?_⟩
    dsimp only at h
    split at h
    · next row issued hrotate => exact .inr ⟨row, issued, hrotate, (Option.some.inj h).symm⟩
    · next message hrotate => exact .inl ⟨message, hrotate, (Option.some.inj h).symm⟩
  · cases h

/-- The message the agent takes, and what it makes of it. -/
theorem receive_eq_some (h : receive s writable = some t) :
    ∃ agent sid pending session message rest, s.agent = some agent ∧
      agent.session = some (sid, pending) ∧ s.sessions sid = some session ∧
      session.toAgent = message :: rest ∧
      (t = s.setSession sid { session with toAgent := rest } ∨
        t = leave (s.setSession sid { session with toAgent := rest }) ∨
        (∃ key identity, pending = none ∧
          prepareCredentialRequest agent.identity s.nextKey writable = some (key, identity) ∧
          t = State.setSession { s with
            disk := identity
            agent := some ⟨identity, some (sid, some key)⟩
            nextKey := s.nextKey + 1 } sid
              { session with toAgent := rest, toServer := session.toServer ++ [key] }) ∨
        ∃ certificate key, message = .credential certificate ∧ pending = some key ∧
          t = State.setSession { s with
            disk := ⟨certificate, key, none⟩
            agent := some ⟨⟨certificate, key, none⟩, none⟩ } sid
              { session with toAgent := rest }) := by
  obtain ⟨agent, hagent, h⟩ := Option.bind_eq_some_iff.mp h
  obtain ⟨⟨sid, pending⟩, hsession, h⟩ := Option.bind_eq_some_iff.mp h
  obtain ⟨session, hs, h⟩ := Option.bind_eq_some_iff.mp h
  split at h
  · cases h
  · next rest hqueue =>
    refine ⟨agent, sid, pending, session, _, rest, hagent, hsession, hs, hqueue, ?_⟩
    split at h
    · exact .inl (Option.some.inj h).symm
    · split at h
      · exact .inr (.inl (Option.some.inj h).symm)
      · next key identity hprepare =>
        refine .inr (.inr (.inl ⟨key, identity, rfl, hprepare, ?_⟩))
        cases h
        simp only [State.setSession, State.mk.injEq, true_and, and_true]
        funext i
        split <;> rfl
  · next certificate rest hqueue =>
    refine ⟨agent, sid, pending, session, _, rest, hagent, hsession, hs, hqueue, ?_⟩
    cases pending with
    | none => exact .inr (.inl (Option.some.inj h).symm)
    | some key =>
      dsimp only at h
      split at h
      · exact .inr (.inr (.inr ⟨certificate, key, rfl, rfl, (Option.some.inj h).symm⟩))
      · exact .inr (.inl (Option.some.inj h).symm)

/-- The key of a request is the pending one. -/
theorem prepareCredentialRequest_eq_some {identity identity' : Identity} {fresh : Key}
    (h : prepareCredentialRequest identity fresh writable = some (key, identity')) :
    identity.pending = some key ∧ identity' = identity ∨
      identity.pending = none ∧ key = fresh ∧
        identity' = { identity with pending := some fresh } := by
  unfold prepareCredentialRequest at h
  split at h
  · next hpending =>
    obtain ⟨rfl, rfl⟩ := Prod.mk.inj (Option.some.inj h)
    exact .inl ⟨hpending, rfl⟩
  · next hpending =>
    split at h
    · obtain ⟨rfl, rfl⟩ := Prod.mk.inj (Option.some.inj h)
      exact .inr ⟨hpending, rfl, rfl⟩
    · cases h

/-- A request of a session with the agent's certificate that the row already
knows is the one the row is ahead by. -/
theorem Inv.ahead_of_repeated (hinv : Inv s) (hpending : s.disk.pending = some csr)
    (hrepeated : s.row.rotationCSR = some csr) : Ahead s.row s.disk := by
  rcases hinv.standing with hlevel | hahead
  · exact absurd hrepeated (hlevel.unused csr hpending)
  · exact hahead

/-- A request is answered with the certificate that the row has for it. -/
theorem inv_serve_stored (hinv : Inv s) {rest : List Key} (hs : s.sessions sid = some session)
    (hqueue : session.toServer = csr :: rest) (hrepeated : s.row.rotationCSR = some csr)
    (hstored : s.row.rotationCertificate = some c) :
    Inv (s.setSession sid
      { session with toServer := rest, toAgent := session.toAgent ++ [.credential c] }) := by
  have hrest : ∀ k ∈ rest, k ∈ session.toServer := fun k hk => by simp [hqueue, hk]
  have hsound := hinv.sound sid session hs
  refine hinv.setSession hs { hsound with
    requests := fun heq k hk => hsound.requests heq k (hrest k hk)
    sent := fun k hk => hsound.sent k (hrest k hk) } fun key hown => ?_
  refine { hown with credentials := fun c' hc' => ?_ }
  rcases mem_append.mp hc' with hc' | hc'
  · exact hown.credentials c' hc'
  · obtain rfl : c' = c := by simpa using hc'
    have hpending := hsound.requests hown.certificate csr (by simp [hqueue])
    exact ⟨hinv.ahead_of_repeated hpending hrepeated, hstored⟩

/-- A rotation: the row was level, and is ahead by the agent's request now. -/
theorem inv_rotated (hinv : Inv s) (hs : s.sessions sid = some session)
    (hcsr : csr ∈ session.toServer) (hserial : s.row.serial = some session.certificate.serial)
    (hc : c.serial = s.nextSerial) :
    Inv { s with
      nextSerial := s.nextSerial + 1
      row := { s.row with
        previousSerial := s.row.serial
        previousValidUntil := some (now + 24 * hour)
        serial := some c.serial
        notAfter := some c.notAfter
        rotationCSR := some csr
        rotationCertificate := some c } } := by
  have hsound := hinv.sound sid session hs
  have hpresented := hsound.presented hserial
  have hlevel : ¬ Ahead s.row s.disk := fun hahead => hahead.serial (hpresented ▸ hserial)
  -- neither the identity nor a session has the certificate that is new
  have hfresh : ∀ serial < s.nextSerial, some c.serial ≠ some serial := by
    intro serial hlt heq
    rw [← Option.some.inj heq, hc] at hlt
    exact Nat.lt_irrefl _ hlt
  refine { hinv.signed with
    made := { hinv.signed.made with serial := fun serial h => ?_, request := fun key h => ?_ }
    stored := ⟨rfl, rfl, fun _ => ⟨c, rfl, rfl⟩⟩
    standing := .inr ⟨hpresented ▸ hserial, hfresh _ hinv.made.certificate, csr,
      hsound.requests hpresented csr hcsr, rfl⟩
    sound := fun i x hx => { hinv.signed.sound i x hx with
      presented := fun heq => absurd heq (hfresh _ (hinv.sound i x hx).made) }
    own := fun agent i key hagent hsession => ?_ }
  · rw [← Option.some.inj h, hc]
    exact Nat.lt_succ_self _
  · cases h
    exact hsound.sent csr hcsr
  · obtain ⟨x, hx, hown⟩ := hinv.own agent i key hagent hsession
    exact ⟨x, hx, { hown with
      credentials := fun c' hc' => absurd (hown.credentials c' hc').1 hlevel }⟩

/-- The control plane answers a request. -/
theorem inv_serve (hinv : Inv s) (h : serve s sid now = some t) : Inv t := by
  obtain ⟨session, csr, rest, hs, hqueue, ⟨message, _, rfl⟩ | ⟨row, issued, hrotate, rfl⟩⟩ :=
    serve_eq_some h
  · exact hinv.signed.narrow hs
      ⟨rfl, fun c hc => hqueue ▸ mem_cons_of_mem csr hc, fun _ hc => hc⟩
  · rcases rotateCredential_ok hrotate with ⟨hrepeated, rfl, hstored⟩ | ⟨-, hserial, hissued, rfl⟩
    · exact inv_serve_stored hinv.signed hs hqueue hrepeated hstored
    · rw [hissued]
      exact inv_serve_stored (inv_rotated hinv hs (by simp [hqueue]) hserial rfl) hs hqueue rfl rfl

/-- The agent has prepared its request. -/
theorem inv_prepared (hinv : Inv s) {agent : Agent} {identity : Identity}
    (hagent : s.agent = some agent) (hsession : agent.session = some (sid, none))
    (hprepare : prepareCredentialRequest agent.identity s.nextKey writable = some (key, identity)) :
    identity.pending = some key ∧ key < s.nextKey + 1 ∧ Inv { s with
      disk := identity
      agent := some ⟨identity, some (sid, some key)⟩
      nextKey := s.nextKey + 1 } := by
  rw [hinv.memory agent hagent] at hprepare
  obtain ⟨session, hs, hown⟩ := hinv.own agent sid none hagent hsession
  have hmade : Inv { s with nextKey := s.nextKey + 1 } := { hinv with
    made := { hinv.made with
      pending := fun k hk => Nat.lt_succ_of_lt (hinv.made.pending k hk)
      request := fun k hk => Nat.lt_succ_of_lt (hinv.made.request k hk) }
    sound := fun i x hx => { hinv.sound i x hx with
      sent := fun k hk => Nat.lt_succ_of_lt ((hinv.sound i x hx).sent k hk) } }
  have hmemory : ∀ agent', some (⟨identity, some (sid, some key)⟩ : Agent) = some agent' →
      agent'.identity = identity := fun agent' h => Option.some.inj h ▸ rfl
  rcases prepareCredentialRequest_eq_some hprepare with ⟨hpending, rfl⟩ | ⟨hnone, rfl, rfl⟩
  · refine ⟨hpending, Nat.lt_succ_of_lt (hinv.made.pending key hpending), ?_⟩
    refine { hmade with
      made := { hmade.made with }
      memory := hmemory
      own := fun agent' i k hagent' hsession' => ?_ }
    cases hagent'
    obtain ⟨rfl, rfl⟩ := Prod.mk.inj (Option.some.inj hsession')
    exact ⟨session, hs, { hown with pending := fun k hk => Option.some.inj hk ▸ hpending }⟩
  · -- nothing was prepared before, so that the row is level and no session has a request
    have hlevel : Level s.row s.disk := hinv.standing.resolve_right fun hahead => by
      obtain ⟨k, hk, _⟩ := hahead.request
      exact nomatch hnone.symm.trans hk
    refine ⟨rfl, Nat.lt_succ_self _, ?_⟩
    refine { hmade with
      made := { hmade.made with pending := fun k hk => Option.some.inj hk ▸ Nat.lt_succ_self _ }
      standing := .inl ⟨hlevel.serial, fun k hk hrequest => ?_⟩
      memory := hmemory
      sound := fun i x hx => { hmade.sound i x hx with requests := fun heq csr hcsr => ?_ }
      own := fun agent' i k hagent' hsession' => ?_ }
    · rw [← Option.some.inj hk] at hrequest
      exact Nat.lt_irrefl _ (hinv.made.request _ hrequest)
    · exact nomatch hnone.symm.trans ((hinv.sound i x hx).requests heq csr hcsr)
    · cases hagent'
      obtain ⟨rfl, rfl⟩ := Prod.mk.inj (Option.some.inj hsession')
      refine ⟨session, hs, hown.certificate, fun k hk => hk ▸ rfl, fun c hc => ?_⟩
      obtain ⟨k, hk, _⟩ := (hown.credentials c hc).1.request
      exact nomatch hnone.symm.trans hk

/-- The agent has stored the certificate of its request. -/
theorem inv_stored (hinv : Inv s) {agent : Agent} (hagent : s.agent = some agent)
    (hsession : agent.session = some (sid, some key)) (hs : s.sessions sid = some session)
    (hmem : .credential c ∈ session.toAgent) :
    Inv { s with disk := ⟨c, key, none⟩, agent := some ⟨⟨c, key, none⟩, none⟩ } := by
  obtain ⟨x, hx, hown⟩ := hinv.own agent sid (some key) hagent hsession
  obtain rfl : session = x := Option.some.inj (hs.symm.trans hx)
  obtain ⟨hahead, hstored⟩ := hown.credentials c hmem
  obtain ⟨k, _, hrequest⟩ := hahead.request
  have hserial : s.row.serial = some c.serial := by
    obtain ⟨c', hc', hserial⟩ := hinv.stored.certificate (by simp [hrequest])
    rw [hserial, ← Option.some.inj (hstored.symm.trans hc')]
  refine { hinv with
    made := { hinv.made with certificate := hinv.made.serial _ hserial, pending := by simp }
    standing := .inl ⟨hserial, by simp⟩
    memory := fun agent' h => Option.some.inj h ▸ rfl
    sound := fun i y hy => { hinv.sound i y hy with
      presented := fun h => Option.some.inj (h.symm.trans hserial)
      requests := fun heq => ?_ }
    own := fun agent' i k hagent' hsession' => ?_ }
  · -- no session was opened with the certificate that is stored
    refine absurd ?_ hahead.serial
    rw [hserial, ← heq, (hinv.sound i y hy).presented (heq ▸ hserial)]
  · cases hagent'
    cases hsession'

/-- The agent takes the answer. -/
theorem inv_receive (hinv : Inv s) (h : receive s writable = some t) : Inv t := by
  obtain ⟨agent, sid, pending, session, message, rest, hagent, hsession, hs, hqueue, hcases⟩ :=
    receive_eq_some h
  have hless : Session.Less { session with toAgent := rest } session :=
    ⟨rfl, fun _ hc => hc, fun c hc => hqueue ▸ mem_cons_of_mem message hc⟩
  rcases hcases with rfl | rfl | ⟨key, identity, rfl, hprepare, rfl⟩ | ⟨c, key, rfl, rfl, rfl⟩
  · exact hinv.narrow hs hless
  · exact (hinv.narrow hs hless).leave
  · obtain ⟨hpending, hkey, hnew⟩ := inv_prepared hinv hagent hsession hprepare
    have hsound := (hnew.sound sid session hs).less hless
    refine hnew.setSession hs { hsound with requests := fun heq => ?_, sent := ?_ } fun key hown =>
      { hown with credentials := fun c hc => hown.credentials c (hless.toAgent c hc) }
    · exact forall_mem_append.mpr ⟨hsound.requests heq, by simpa using hpending⟩
    · exact forall_mem_append.mpr ⟨hsound.sent, by simpa using hkey⟩
  · exact (inv_stored hinv hagent hsession hs (by simp [hqueue])).narrow hs hless

/-- Every step keeps the invariant. -/
theorem inv_step (hinv : Inv s) (h : step s a = some t) : Inv t := by
  cases a with
  | start =>
    obtain ⟨_, h⟩ := Option.ite_none_right_eq_some.mp h
    cases h
    exact hinv.alone (by simp)
  | stop =>
    cases h
    exact hinv.alone (by simp)
  | connect now => exact inv_connect hinv h
  | leave =>
    cases h
    exact hinv.leave
  | receive writable => exact inv_receive hinv h
  | askRotation sid now =>
    obtain ⟨session, hs, h⟩ := Option.bind_eq_some_iff.mp h
    obtain ⟨_, h⟩ := Option.ite_none_right_eq_some.mp h
    cases h
    exact hinv.narrow hs ⟨rfl, fun _ hc => hc, fun c hc => by simpa using hc⟩
  | serve sid now => exact inv_serve hinv h
  | close sid =>
    obtain ⟨session, hs, rfl⟩ := Option.map_eq_some_iff.mp h
    exact hinv.narrow hs ⟨rfl, fun _ hc => hc, fun _ hc => hc⟩
  | revoke now =>
    cases h
    exact hinv.flags (some now) s.row.disabled
  | setDisabled disabled =>
    cases h
    exact hinv.flags s.row.revokedAt disabled

/-- And so does every run. -/
theorem inv_run {notAfter : Int} (hrun : run step (init notAfter) ops = some s) : Inv s :=
  run_invariant (fun _ _ _ hinv h => inv_step hinv h) (inv_init notAfter) hrun

/-- A certificate was given for the request: the row still has it, or the request
belongs to the past. -/
def Granted (s : State) (csr : Key) (c : Certificate) : Prop :=
  s.row.rotationCSR = some csr ∧ s.row.rotationCertificate = some c ∨
    s.row.rotationCSR ≠ some csr ∧ s.disk.pending ≠ some csr ∧ csr < s.nextKey

/-- What was granted stays granted when requests are served. -/
theorem granted_serve (hinv : Inv s) (h : Granted s csr c) (hstep : serve s sid now = some t) :
    Granted t csr c := by
  obtain ⟨session, other, rest, hs, hqueue, ⟨_, _, rfl⟩ | ⟨row, issued, hrotate, rfl⟩⟩ :=
    serve_eq_some hstep
  · exact h
  · rcases rotateCredential_ok hrotate with ⟨_, rfl, _⟩ | ⟨hnew, hserial, _, rfl⟩
    · exact h
    · have hsound := hinv.sound sid session hs
      have hpending := hsound.requests (hsound.presented hserial) other (by simp [hqueue])
      -- another request takes the place of this one
      have hother : other ≠ csr ∧ csr < s.nextKey := by
        rcases h with ⟨hcsr, _⟩ | ⟨_, hne, hlt⟩
        · exact ⟨fun heq => hnew (heq ▸ hcsr), hinv.made.request csr hcsr⟩
        · exact ⟨fun heq => hne (heq ▸ hpending), hlt⟩
      refine .inr ⟨fun heq => hother.1 (Option.some.inj heq), fun heq => ?_, hother.2⟩
      exact hother.1 (Option.some.inj (hpending.symm.trans heq))

/-- It does when the agent takes an answer. -/
theorem granted_receive (hinv : Inv s) (h : Granted s csr c) (hstep : receive s writable = some t) :
    Granted t csr c := by
  obtain ⟨agent, sid, pending, session, message, rest, hagent, hsession, hs, hqueue, hcases⟩ :=
    receive_eq_some hstep
  rcases hcases with rfl | rfl | ⟨key, identity, _, hprepare, rfl⟩ | ⟨_, _, _, _, rfl⟩
  · exact h
  · exact h
  · rcases h with h | ⟨hne, hpending, hlt⟩
    · exact .inl h
    · refine .inr ⟨hne, ?_, Nat.lt_succ_of_lt hlt⟩
      rw [hinv.memory agent hagent] at hprepare
      rcases prepareCredentialRequest_eq_some hprepare with ⟨_, rfl⟩ | ⟨_, _, rfl⟩
      · exact hpending
      · exact fun heq => Nat.lt_irrefl _ (Option.some.inj heq ▸ hlt)
  · rcases h with h | ⟨hne, _, hlt⟩
    · exact .inl h
    · exact .inr ⟨hne, by simp [State.setSession], hlt⟩

/-- So it does in every step. -/
theorem granted_step (hinv : Inv s) (h : Granted s csr c) (hstep : step s a = some t) :
    Granted t csr c := by
  cases a with
  | receive writable => exact granted_receive hinv h hstep
  | serve sid now => exact granted_serve hinv h hstep
  | start =>
    obtain ⟨_, hstep⟩ := Option.ite_none_right_eq_some.mp hstep
    cases hstep
    exact h
  | connect now =>
    obtain ⟨agent, _, hstep⟩ := Option.bind_eq_some_iff.mp hstep
    split at hstep <;> cases hstep
    exact h
  | askRotation sid now =>
    obtain ⟨session, _, hstep⟩ := Option.bind_eq_some_iff.mp hstep
    obtain ⟨_, hstep⟩ := Option.ite_none_right_eq_some.mp hstep
    cases hstep
    exact h
  | close sid =>
    obtain ⟨session, _, rfl⟩ := Option.map_eq_some_iff.mp hstep
    exact h
  | _ =>
    cases hstep
    exact h

/-- The request is the next one the session takes. -/
def Requests (s : State) (sid : SessionId) (csr : Key) (session : Session) : Prop :=
  s.sessions sid = some session ∧ session.live ∧ ∃ rest, session.toServer = csr :: rest

/-- The session answers the request with a certificate, and leaves `row`. -/
def Answers (s : State) (sid : SessionId) (now : Int) (csr : Key) (row : CredentialRow)
    (c : Certificate) : Prop :=
  ∃ session issued, Requests s sid csr session ∧ issued.certificate = c ∧
    rotateCredential s.row session.certificate.serial csr (issue s.nextSerial csr now) now =
      .ok (row, issued)

/-- The row after an answer has the certificate that was given. -/
theorem granted_of_answers (h : Answers s sid now csr row c) (hstep : serve s sid now = some t) :
    Granted t csr c := by
  obtain ⟨session, issued, ⟨hs, _, rest, hqueue⟩, rfl, hrotate⟩ := h
  obtain ⟨session', csr', rest', hs', hqueue', hcases⟩ := serve_eq_some hstep
  obtain rfl : session = session' := Option.some.inj (hs.symm.trans hs')
  obtain ⟨rfl, rfl⟩ := List.cons.inj (hqueue.symm.trans hqueue')
  rcases hcases with ⟨_, herror, _⟩ | ⟨row', issued', hrotate', rfl⟩
  · rw [hrotate] at herror
    cases herror
  · obtain ⟨rfl, rfl⟩ := Prod.mk.inj (Except.ok.inj (hrotate.symm.trans hrotate'))
    rcases rotateCredential_ok hrotate with ⟨hrepeated, rfl, hstored⟩ | ⟨_, _, hissued, rfl⟩
    · exact .inl ⟨hrepeated, hstored⟩
    · exact .inl ⟨rfl, congrArg some hissued.symm⟩

/-- A request for which a certificate was given is answered with it, or not at
all. -/
theorem Granted.answers (hinv : Inv s) {c' : Certificate} (h : Granted s csr c)
    (hanswer : Answers s sid now csr row c') : row = s.row ∧ c' = c := by
  obtain ⟨session, issued, ⟨hs, _, rest, hqueue⟩, rfl, hrotate⟩ := hanswer
  rcases rotateCredential_ok hrotate with ⟨hrepeated, hrow, hstored⟩ | ⟨hnew, hserial, _, _⟩
  · rcases h with ⟨_, hc⟩ | ⟨hne, _⟩
    · exact ⟨hrow, Option.some.inj (hstored.symm.trans hc)⟩
    · exact absurd hrepeated hne
  · rcases h with ⟨hcsr, _⟩ | ⟨_, hpending, _⟩
    · exact absurd hcsr hnew
    · have hsound := hinv.sound sid session hs
      exact absurd (hsound.requests (hsound.presented hserial) csr (by simp [hqueue])) hpending

/-- As long as the agent has the request prepared, it is answered. -/
theorem Granted.answered (hinv : Inv s) (h : Granted s csr c)
    (hrequest : Requests s sid csr session) (hpending : s.disk.pending = some csr)
    (henabled : s.row.disabled = false) (hvalid : s.row.revokedAt = none) :
    Answers s sid now csr s.row c := by
  rcases h with ⟨hcsr, hc⟩ | ⟨_, hne, _⟩
  · obtain ⟨serial, hserial⟩ := Option.isSome_iff_exists.mp hinv.stored.serial
    obtain ⟨notAfter, hnotAfter⟩ := Option.isSome_iff_exists.mp hinv.stored.notAfter
    refine ⟨session, ⟨c, serial, notAfter⟩, hrequest, rfl, ?_⟩
    unfold rotateCredential
    simp only [henabled, hvalid, hcsr, hserial, hnotAfter, hc, Option.isSome_none,
      Bool.false_eq_true, or_self, if_false, if_true]
  · exact absurd hpending hne

/-- **No rotation locks the node out.**  In every run the serial of the
certificate the agent would present next is the current or the previous serial
of the row.  Once a request was answered with a certificate, the same request
is never answered with another one and never changes the row again; and it is
answered as long as the agent has it prepared and the credential is in force. -/
theorem serial_recorded {notAfter : Int} (hrun : run step (init notAfter) ops = some s) :
    (s.row.serial = some s.presents.serial ∨ s.row.previousSerial = some s.presents.serial) ∧
    ∀ sid now csr row c t, Answers s sid now csr row c → step s (.serve sid now) = some t →
      ∀ later u, run step t later = some u →
        (∀ sid' now' row' c', Answers u sid' now' csr row' c' → row' = u.row ∧ c' = c) ∧
        ∀ sid' now' session, Requests u sid' csr session → u.disk.pending = some csr →
          u.row.disabled = false → u.row.revokedAt = none → Answers u sid' now' csr u.row c := by
  have hinv := inv_run hrun
  refine ⟨?_, fun sid now csr row c t hanswer hserve later u hlater => ?_⟩
  · have hpresents : s.presents = s.disk.certificate := by
      unfold State.presents
      split
      · next agent hagent => rw [hinv.memory agent hagent]
      · rfl
    rw [hpresents]
    rcases hinv.standing with hlevel | hahead
    · exact .inl hlevel.serial
    · exact .inr hahead.previous
  · have hfirst : Inv t ∧ Granted t csr c :=
      ⟨inv_step hinv hserve, granted_of_answers hanswer hserve⟩
    have hlast := run_invariant (I := fun s => Inv s ∧ Granted s csr c)
      (fun _ _ _ h hstep => ⟨inv_step h.1 hstep, granted_step h.1 h.2 hstep⟩) hfirst hlater
    exact ⟨fun sid' now' row' c' h => hlast.2.answers hlast.1 h,
      fun sid' now' session hrequest => hlast.2.answered hlast.1 hrequest⟩

/-- A rotation whose certificate does not reach the agent, which crashes. -/
def lostResponse : List Action :=
  [.start, .connect 0, .askRotation 0 0, .receive true, .serve 0 0, .stop, .start, .connect 1]

theorem serial_recorded_lostResponse :
    ∃ s, run step (init 0) lostResponse = some s ∧ s.row.serial ≠ some s.presents.serial ∧
      (s.row.serial = some s.presents.serial ∨
        s.row.previousSerial = some s.presents.serial) := by
  have hends : ∃ s, run step (init 0) lostResponse = some s ∧
      s.row.serial ≠ some s.presents.serial := by
    apply ends_of_any
    decide +kernel
  obtain ⟨s, hs, hne⟩ := hends
  exact ⟨s, hs, hne, (serial_recorded hs).1⟩

end CredentialRotation
