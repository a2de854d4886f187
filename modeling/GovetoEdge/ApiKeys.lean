import GovetoEdge.Base64
import GovetoEdge.Runs
import GovetoEdge.SqlTables
import GovetoEdge.Utf8
import GovetoEdge.Fallible

/-!
# API keys

A key is created with a token, and rotations give it new ones.  Only hashes are
stored: that of the current token and, until the grace of the last rotation is
over, that of the one before.

* `Inv`: the hashes are those of the tokens the history of a key says;
* `verify_iff`: which tokens authenticate, after any run of operations;
* `mem_step_of_revoked`: a revoked key never changes again.
-/

namespace ApiKeys

open GoStrings Runs SqlTables List Fallible

/-- Every token begins with it. -/
def tokenPrefix : GoString := lit "gve1_"

/-- The character of six bits in the URL alphabet. -/
def urlDigit (n : Nat) : UInt8 :=
  (lit "ABCDEFGHIJKLMNOPQRSTUVWXYZabcdefghijklmnopqrstuvwxyz0123456789-_").getD n 0

/-- The random bytes of a token. -/
abbrev Raw := { raw : List UInt8 // raw.length = 32 }

/-- The prefix and the random bytes in base 64. -/
def generateToken (raw : Raw) : GoString := tokenPrefix ++ (Base64.values raw.1).map urlDigit

/-- A character of the URL alphabet. -/
def isTokenByte (b : UInt8) : Bool :=
  (65 ≤ b && b ≤ 90) || (97 ≤ b && b ≤ 122) || (48 ≤ b && b ≤ 57) || b == 45 || b == 95

/-- Prefix, length and characters are those of a token. -/
def validTokenFormat (token : GoString) : Bool :=
  tokenPrefix.isPrefixOf token && (token.drop tokenPrefix.length).length == 43 &&
    (token.drop tokenPrefix.length).all isTokenByte

/-- Three bytes make four characters. -/
theorem length_values (s : GoString) : (Base64.values s).length = (4 * s.length + 2) / 3 := by
  fun_induction Base64.values s with
  | case1 => rfl
  | case2 a => simp
  | case3 a b => simp
  | case4 a b c rest ih =>
    simp only [length_cons, ih]
    omega

/-- Digits are token characters. -/
theorem isTokenByte_urlDigit : ∀ n < 64, isTokenByte (urlDigit n) = true := by
  decide +kernel

/-- Generated tokens have the format. -/
theorem valid_generateToken (raw : Raw) : validTokenFormat (generateToken raw) = true := by
  have hall : ∀ n ∈ Base64.values raw.1, isTokenByte (urlDigit n) = true := fun n hn =>
    isTokenByte_urlDigit n (Base64.values_lt _ n hn)
  rw [validTokenFormat, generateToken, drop_left, length_map, length_values, raw.2,
    all_map, Bool.and_eq_true, Bool.and_eq_true]
  exact ⟨⟨by simp, rfl⟩, all_eq_true.mpr hall⟩

/-- What happened to a key: a token was issued, with the grace for the one before,
or the key was disabled. -/
inductive Event
  | issued (token : GoString) (time grace : Int)
  | disabled
deriving DecidableEq

/-- A row of `cluster_api_keys`; `events` is its history, newest first, which is not
stored. -/
structure KeyRow where
  id : GoString
  clusterId : GoString
  name : GoString
  tokenHash : GoString
  previousTokenHash : Option GoString
  previousExpiresAt : Option Int
  permissions : List GoString
  active : Bool
  expiresAt : Option Int
  revokedAt : Option Int
  createdBy : GoString
  events : List Event
deriving DecidableEq

/-- The token that was issued. -/
def Event.token : Event → Option GoString
  | .issued token _ _ => some token
  | .disabled => none

/-- The tokens of a key, newest first. -/
def KeyRow.tokens (row : KeyRow) : List GoString := row.events.filterMap Event.token

/-- How long the token before the last is accepted: for the grace of the last
rotation, unless the key was disabled since. -/
def KeyRow.openUntil (row : KeyRow) : Option Int :=
  match row.events with
  | .issued _ time grace :: _ => if 0 < grace then some (time + grace) else none
  | _ => none

/-- The tables that keys depend on. -/
structure Db where
  clusters : List GoString
  /-- the users whose status is ACTIVE -/
  activeUsers : List GoString
  keys : List KeyRow

/-- What operations fail with. -/
inductive Error
  | invalid | expired | revoked | disabled | creatorInactive | notFound | clusterNotFound
  | nameTaken
  | invalidName | permissionsRequired | permissionNotAllowed | invalidExpiry | keyLimitReached
  | invalidGrace | creatorRequired | constraint
deriving DecidableEq

variable (hash : GoString → GoString)

/-- `rbac.KeyPermissionAllowed`. -/
def keyPermissionAllowed (permission : GoString) : Bool :=
  permission ∈ [lit "cluster.read", lit "site.write", lit "site.delete", lit "site.publish",
    lit "cache.operate"]

/-- Revocation, status and expiry, in this order. -/
def verifyState (row : KeyRow) (now : Int) : Except Error Unit :=
  if row.revokedAt.isSome then .error .revoked
  else if !row.active then .error .disabled
  else if row.expiresAt.any (· ≤ now) then .error .expired
  else .ok ()

/-- What a key is created with. -/
structure CreateInput where
  clusterId : GoString
  name : GoString
  permissions : List GoString
  expiresAt : Option Int
  createdBy : GoString

/-- Why a key is not created, unless a constraint of the table is the reason; the
clock is read before the transaction and in it. -/
def createError (db : Db) (input : CreateInput) (before now : Int) : Option Error :=
  let name := trimSpace input.name
  if name = [] ∨ 80 < (Utf8.runes name.length name).length then some .invalidName
  else if input.permissions = [] then some .permissionsRequired
  else if trimSpace input.createdBy = [] then some .creatorRequired
  else if !input.permissions.all keyPermissionAllowed then some .permissionNotAllowed
  else if input.expiresAt.any (· ≤ before) then some .invalidExpiry
  else if input.clusterId ∉ db.clusters then some .clusterNotFound
  else if input.createdBy ∉ db.activeUsers then some .creatorInactive
  else if 100 ≤ db.keys.countP fun row => row.clusterId = input.clusterId ∧ row.revokedAt = none ∧
      !row.expiresAt.any (· ≤ now) then some .keyLimitReached
  else if db.keys.any fun row => row.clusterId = input.clusterId ∧ row.name = name then
    some .nameTaken
  else none

/-- The row of a new key. -/
def newKey (id token : GoString) (input : CreateInput) (now : Int) : KeyRow where
  id := id
  clusterId := input.clusterId
  name := trimSpace input.name
  tokenHash := hash token
  previousTokenHash := none
  previousExpiresAt := none
  permissions := input.permissions
  active := true
  expiresAt := input.expiresAt
  revokedAt := none
  createdBy := input.createdBy
  events := [.issued token now 0]

/-- `Create`. -/
def create (db : Db) (id : GoString) (raw : Raw) (input : CreateInput) (before now : Int) :
    Except Error Db :=
  match createError db input before now with
  | some e => .error e
  | none =>
    if db.keys.any fun row => row.id = id ∨ row.tokenHash = hash (generateToken raw) then
      .error .constraint
    else .ok { db with keys := newKey hash id (generateToken raw) input now :: db.keys }

/-- `SELECT … FOR UPDATE`. -/
def lockKey (db : Db) (clusterId keyId : GoString) : Option KeyRow :=
  db.keys.find? fun row => row.id = keyId ∧ row.clusterId = clusterId

/-- The columns that `Rotate` sets. -/
def KeyRow.rotated (row : KeyRow) (token : GoString) (grace now : Int) : KeyRow :=
  { row with
    tokenHash := hash token
    previousTokenHash := if 0 < grace then some row.tokenHash else none
    previousExpiresAt := if 0 < grace then some (now + grace) else none
    events := .issued token now grace :: row.events }

/-- `Rotate`; times are in nanoseconds. -/
def rotate (db : Db) (clusterId keyId : GoString) (raw : Raw) (grace now : Int) : Except Error Db :=
  if grace < 0 ∨ 86400 * 1000000000 < grace then .error .invalidGrace
  else
    match lockKey db clusterId keyId with
    | none => .error .notFound
    | some current => do
      verifyState current now
      if current.createdBy ∉ db.activeUsers then .error .creatorInactive
      else if db.keys.any fun row => row.tokenHash = hash (generateToken raw) then
        .error .constraint
      else .ok { db with
        keys := update (fun row => row.id = keyId)
          (fun row => row.rotated hash (generateToken raw) grace now) db.keys }

/-- The columns an update may set. -/
structure Changes where
  name : Option GoString
  permissions : Option (List GoString)
  active : Option Bool
  expiresAt : Option (Option Int)

/-- `Update` with the clauses of the handler: disabling a key takes the token
before the last away. -/
def KeyRow.changed (row : KeyRow) (changes : Changes) : KeyRow :=
  let row := { row with
    name := changes.name.getD row.name
    permissions := changes.permissions.getD row.permissions
    active := changes.active.getD row.active
    expiresAt := changes.expiresAt.getD row.expiresAt }
  if changes.active = some false then
    { row with
      previousTokenHash := none, previousExpiresAt := none, events := .disabled :: row.events }
  else row

/-- `Update`. -/
def applyUpdate (db : Db) (clusterId keyId : GoString) (changes : Changes) : Except Error Db :=
  match lockKey db clusterId keyId with
  | none => .error .notFound
  | some current =>
    if current.revokedAt.isSome then .error .revoked
    else if db.keys.any fun row => row.id ≠ keyId ∧ row.clusterId = clusterId ∧
        some row.name = changes.name then .error .nameTaken
    else .ok { db with keys := update (fun row => row.id = keyId) (·.changed changes) db.keys }

/-- The columns that `Revoke` sets. -/
def KeyRow.revoked (row : KeyRow) (now : Int) : KeyRow :=
  { row with
    revokedAt := some now, active := false, previousTokenHash := none, previousExpiresAt := none }

/-- `Revoke`; doing it again does nothing. -/
def revoke (db : Db) (clusterId keyId : GoString) (now : Int) : Except Error Db :=
  match lockKey db clusterId keyId with
  | none => .error .notFound
  | some current =>
    if current.revokedAt.isSome then .ok db
    else .ok { db with keys := update (fun row => row.id = keyId) (·.revoked now) db.keys }

/-- The query of `Verify`.  The columns of both hashes are unique, so that there is
at most one row for each; the one of the current hash comes first. -/
def candidate (db : Db) (token : GoString) : Option KeyRow :=
  (db.keys.find? fun row => row.tokenHash = hash token).or
    (db.keys.find? fun row => row.previousTokenHash = some (hash token))

/-- `Verify`: the format, the row, its state, its creator, the grace. -/
def verify (db : Db) (token : GoString) (now : Int) : Except Error KeyRow :=
  if !validTokenFormat token then .error .invalid
  else
    match candidate hash db token with
    | none => .error .invalid
    | some row => do
      verifyState row now
      if row.createdBy ∉ db.activeUsers then .error .creatorInactive
      else if row.previousTokenHash = some (hash token) ∧ !row.previousExpiresAt.any (now < ·) then
        .error .invalid
      else .ok row

/-- The operations. -/
inductive Action
  | create (id : GoString) (raw : Raw) (input : CreateInput) (before now : Int)
  | rotate (clusterId keyId : GoString) (raw : Raw) (grace now : Int)
  | update (clusterId keyId : GoString) (changes : Changes)
  | revoke (clusterId keyId : GoString) (now : Int)
  /-- clusters and users are managed elsewhere -/
  | manage (clusters activeUsers : List GoString)

/-- An operation that fails changes nothing. -/
def step (db : Db) : Action → Option Db
  | .create id raw input before now =>
    some ((create hash db id raw input before now).toOption.getD db)
  | .rotate clusterId keyId raw grace now =>
    some ((rotate hash db clusterId keyId raw grace now).toOption.getD db)
  | .update clusterId keyId changes =>
    some ((applyUpdate db clusterId keyId changes).toOption.getD db)
  | .revoke clusterId keyId now => some ((revoke db clusterId keyId now).toOption.getD db)
  | .manage clusters activeUsers => some { db with clusters, activeUsers }

/-- The random bytes of an operation. -/
def Action.raw : Action → Option Raw
  | .create _ raw _ _ _ => some raw
  | .rotate _ _ raw _ _ => some raw
  | _ => none

/-- No token is drawn twice. -/
def Fresh (db : Db) (a : Action) : Prop :=
  ∀ raw ∈ a.raw, ∀ row ∈ db.keys, generateToken raw ∉ row.tokens

instance (db : Db) (a : Action) : Decidable (Fresh db a) :=
  decidable_of_iff (∀ raw ∈ a.raw.toList, ∀ row ∈ db.keys, generateToken raw ∉ row.tokens)
    (by simp [Fresh])

/-- No keys. -/
def Db.empty : Db := ⟨[], [], []⟩

/-- The hashes of a row are those of its tokens. -/
structure KeyRow.Exact (row : KeyRow) : Prop where
  valid : ∀ token ∈ row.tokens, validTokenFormat token = true
  nodup : row.tokens.Nodup
  current : ∃ token, row.tokens.head? = some token ∧ row.tokenHash = hash token
  /-- there is a previous hash as long as there is a grace -/
  previous : row.revokedAt = none → ∀ until', row.openUntil = some until' →
    ∃ token, row.tokens[1]? = some token ∧ row.previousTokenHash = some (hash token) ∧
      row.previousExpiresAt = some until'
  closed : row.revokedAt.isSome ∨ row.openUntil = none → row.previousTokenHash = none

/-- Rows are exact, and no token belongs to two keys. -/
structure Inv (db : Db) : Prop where
  ids : (db.keys.map (·.id)).Nodup
  apart : ∀ row ∈ db.keys, ∀ row' ∈ db.keys, ∀ token ∈ row.tokens, token ∈ row'.tokens →
    row.id = row'.id
  exact : ∀ row ∈ db.keys, row.Exact hash

variable {hash : GoString → GoString} {db db' : Db} {row : KeyRow}

/-- The empty table is exact. -/
theorem inv_empty : Inv hash Db.empty :=
  ⟨nodup_nil, forall_mem_nil _, forall_mem_nil _⟩

/-- A token belongs to one row. -/
theorem Inv.eq_of_token (h : Inv hash db) {row' : KeyRow} {token : GoString} (hrow : row ∈ db.keys)
    (hrow' : row' ∈ db.keys) (ht : token ∈ row.tokens) (ht' : token ∈ row'.tokens) : row = row' :=
  eq_of_key h.ids hrow hrow' (h.apart row hrow row' hrow' token ht ht')

variable {keyId clusterId : GoString} {now : Int}

/-- Rows of one key are changed; a token they get was not there before. -/
theorem Inv.update (h : Inv hash db) {f : KeyRow → KeyRow} (token : Option GoString)
    (hid : ∀ row, (f row).id = row.id)
    (htokens : ∀ row, (f row).tokens = token.toList ++ row.tokens)
    (hfresh : ∀ t ∈ token, ∀ row ∈ db.keys, t ∉ row.tokens)
    (hexact : ∀ row ∈ db.keys, row.id = keyId → (f row).Exact hash) :
    Inv hash { db with keys := SqlTables.update (fun row => row.id = keyId) f db.keys } where
  ids := by
    rw [map_update hid]
    exact h.ids
  apart := by
    intro row hrow row' hrow' t ht ht'
    have hold : ∀ r ∈ SqlTables.update (fun row => row.id = keyId) f db.keys, t ∈ r.tokens →
        (∃ old ∈ db.keys, old.id = r.id ∧ t ∈ old.tokens) ∨ (t ∈ token ∧ r.id = keyId) := by
      intro r hr hin
      rcases mem_update_cases hr with ⟨old, hold, hkey, rfl⟩ | ⟨hmem, -⟩
      · rw [htokens, mem_append, Option.mem_toList] at hin
        rw [hid]
        rcases hin with hnew | hin
        · exact .inr ⟨hnew, hkey⟩
        · exact .inl ⟨old, hold, rfl, hin⟩
      · exact .inl ⟨r, hmem, rfl, hin⟩
    rcases hold row hrow ht with ⟨old, hmem, hid₁, hin⟩ | ⟨hnew, hk⟩
    · rcases hold row' hrow' ht' with ⟨old', hmem', hid₂, hin'⟩ | ⟨hnew', -⟩
      · rw [← hid₁, ← hid₂]
        exact h.apart old hmem old' hmem' t hin hin'
      · exact absurd hin (hfresh t hnew' old hmem)
    · rcases hold row' hrow' ht' with ⟨old', hmem', -, hin'⟩ | ⟨-, hk'⟩
      · exact absurd hin' (hfresh t hnew old' hmem')
      · rw [hk, hk']
  exact := forall_update h.exact hexact

/-- A failure leaves the old value. -/
theorem Except.toOption_getD {ε α : Type} {r : Except ε α} {a b : α} (h : r.toOption.getD a = b) :
    b = a ∨ r = .ok b := by
  cases r with
  | error e => exact .inl h.symm
  | ok c => exact .inr (congrArg Except.ok h)

/-- The locked row is the key's. -/
theorem lockKey_eq_some (h : lockKey db clusterId keyId = some row) :
    row ∈ db.keys ∧ row.id = keyId := by
  have hfound := List.find?_some h
  simp only [decide_eq_true_eq] at hfound
  exact ⟨mem_of_find?_eq_some h, hfound.1⟩

/-- When the state allows a verification. -/
theorem verifyState_eq_ok : verifyState row now = .ok () ↔
    row.revokedAt = none ∧ row.active = true ∧ ∀ e, row.expiresAt = some e → now < e := by
  unfold verifyState
  cases hrevoked : row.revokedAt <;> cases hexpires : row.expiresAt <;> split_ifs <;> simp_all

/-- A rotated row stays exact. -/
theorem KeyRow.Exact.rotated (h : row.Exact hash) {token : GoString} {grace : Int}
    (hvalid : validTokenFormat token = true) (hfresh : token ∉ row.tokens)
    (hrevoked : row.revokedAt = none) : (row.rotated hash token grace now).Exact hash := by
  obtain ⟨last, hlast, hhash⟩ := h.current
  have htokens : (row.rotated hash token grace now).tokens = token :: row.tokens := rfl
  refine ⟨?_, ?_, ⟨token, rfl, rfl⟩, ?_, ?_⟩
  · exact forall_mem_cons.mpr ⟨hvalid, h.valid⟩
  · exact nodup_cons.mpr ⟨hfresh, h.nodup⟩
  · intro _ until' hopen
    simp only [KeyRow.openUntil, KeyRow.rotated, Option.ite_none_right_eq_some,
      Option.some.injEq] at hopen
    refine ⟨last, ?_, ?_, ?_⟩
    · rw [htokens, List.getElem?_cons_succ, ← List.head?_eq_getElem?]
      exact hlast
    · simp only [KeyRow.rotated, if_pos hopen.1, hhash]
    · simp only [KeyRow.rotated, if_pos hopen.1, hopen.2]
  · rintro (hsome | hclosed)
    · simp only [KeyRow.rotated, hrevoked, Option.isSome_none, Bool.false_eq_true] at hsome
    · simp only [KeyRow.openUntil, KeyRow.rotated, ite_eq_right_iff, reduceCtorEq, imp_false]
        at hclosed
      exact if_neg hclosed

/-- So does an updated row. -/
theorem KeyRow.Exact.changed (h : row.Exact hash) (changes : Changes) :
    (row.changed changes).Exact hash := by
  unfold KeyRow.changed
  split
  · refine ⟨h.valid, h.nodup, h.current, fun _ _ hopen => ?_, fun _ => rfl⟩
    cases hopen
  · exact ⟨h.valid, h.nodup, h.current, h.previous, h.closed⟩

/-- And a revoked one. -/
theorem KeyRow.Exact.revoked (h : row.Exact hash) (now : Int) : (row.revoked now).Exact hash := by
  refine ⟨h.valid, h.nodup, h.current, fun hnone => ?_, fun _ => rfl⟩
  cases hnone

/-- A new key keeps the table exact. -/
theorem Inv.create {id token : GoString} {input : CreateInput} (h : Inv hash db)
    (hvalid : validTokenFormat token = true) (hid : ∀ row ∈ db.keys, row.id ≠ id)
    (hfresh : ∀ row ∈ db.keys, token ∉ row.tokens) :
    Inv hash { db with keys := newKey hash id token input now :: db.keys } where
  ids := by
    refine nodup_cons.mpr ⟨fun hin => ?_, h.ids⟩
    obtain ⟨row, hrow, heq⟩ := mem_map.mp hin
    exact hid row hrow heq
  apart := by
    have hnew : ∀ row ∈ db.keys, ∀ t ∈ [token], t ∉ row.tokens := by
      intro row hrow t ht
      rw [mem_singleton.mp ht]
      exact hfresh row hrow
    intro row hrow row' hrow' t ht ht'
    rcases mem_cons.mp hrow with rfl | hrow
    · rcases mem_cons.mp hrow' with rfl | hrow'
      · rfl
      · exact absurd ht' (hnew row' hrow' t ht)
    · rcases mem_cons.mp hrow' with rfl | hrow'
      · exact absurd ht (hnew row hrow t ht')
      · exact h.apart row hrow row' hrow' t ht ht'
  exact := by
    refine forall_mem_cons.mpr ⟨⟨?_, nodup_singleton _, ⟨_, rfl, rfl⟩, ?_, fun _ => rfl⟩, h.exact⟩
    · exact forall_mem_singleton.mpr hvalid
    · intro _ until' hopen
      cases hopen

/-- What an operation does: it adds a key, changes a key that is not revoked, or
leaves the keys alone. -/
inductive Turn (hash : GoString → GoString) (db : Db) (a : Action) : Db → Prop
  | other {clusters activeUsers : List GoString} : Turn hash db a { db with clusters, activeUsers }
  | added {id : GoString} {raw : Raw} {input : CreateInput} {now : Int} (hraw : raw ∈ a.raw)
      (hid : ∀ row ∈ db.keys, row.id ≠ id) :
      Turn hash db a { db with keys := newKey hash id (generateToken raw) input now :: db.keys }
  | changed {current : KeyRow} {f : KeyRow → KeyRow} (raw : Option Raw)
      (hraw : ∀ r ∈ raw, r ∈ a.raw) (hmem : current ∈ db.keys) (hrevoked : current.revokedAt = none)
      (hids : ∀ row, (f row).id = row.id)
      (htokens : ∀ row, (f row).tokens = (raw.map generateToken).toList ++ row.tokens)
      (hexact : current.Exact hash → (∀ r ∈ raw, generateToken r ∉ current.tokens) →
        (f current).Exact hash) :
      Turn hash db a { db with keys := update (fun row => row.id = current.id) f db.keys }

/-- **What an operation does.** -/
theorem step_turn {a : Action} (hstep : step hash db a = some db') : Turn hash db a db' := by
  cases a with
  | create id raw input before now =>
    rcases Except.toOption_getD (Option.some.inj hstep) with rfl | hok
    · exact .other
    unfold ApiKeys.create at hok
    split at hok
    · cases hok
    split_ifs at hok with hconflict
    cases hok
    simp only [any_eq_true, decide_eq_true_eq, not_exists, not_and, not_or] at hconflict
    exact .added rfl fun row hrow => (hconflict row hrow).1
  | rotate clusterId keyId raw grace now =>
    rcases Except.toOption_getD (Option.some.inj hstep) with rfl | hok
    · exact .other
    obtain ⟨-, hok⟩ := ok_of_guard hok
    split at hok
    · cases hok
    next current hlock =>
    obtain ⟨hmem, rfl⟩ := lockKey_eq_some hlock
    cases hstate : verifyState current now with
    | error e =>
      rw [hstate] at hok
      cases hok
    | ok _ =>
      rw [hstate] at hok
      dsimp only [Bind.bind, Except.bind] at hok
      split_ifs at hok
      cases hok
      have hrevoked := (verifyState_eq_ok.mp hstate).1
      exact .changed (some raw) (fun _ hr => hr) hmem hrevoked (fun _ => rfl) (fun _ => rfl)
        fun h hfresh => h.rotated (valid_generateToken raw) (hfresh raw rfl) hrevoked
  | update clusterId keyId changes =>
    rcases Except.toOption_getD (Option.some.inj hstep) with rfl | hok
    · exact .other
    unfold applyUpdate at hok
    split at hok
    · cases hok
    next current hlock =>
    obtain ⟨hmem, rfl⟩ := lockKey_eq_some hlock
    split_ifs at hok with hrevoked
    cases hok
    refine .changed none nofun hmem (Option.not_isSome_iff_eq_none.mp hrevoked) ?_ ?_
      fun h _ => h.changed changes
    all_goals
      intro row
      unfold KeyRow.changed
      split <;> rfl
  | revoke clusterId keyId now =>
    rcases Except.toOption_getD (Option.some.inj hstep) with rfl | hok
    · exact .other
    unfold ApiKeys.revoke at hok
    split at hok
    · cases hok
    next current hlock =>
    obtain ⟨hmem, rfl⟩ := lockKey_eq_some hlock
    split_ifs at hok with hrevoked
    · cases hok
      exact .other
    · cases hok
      exact .changed none nofun hmem (Option.not_isSome_iff_eq_none.mp hrevoked) (fun _ => rfl)
        (fun _ => rfl) fun h _ => h.revoked now
  | manage clusters activeUsers =>
    cases hstep
    exact .other

/-- **Every operation keeps the table exact.** -/
theorem inv_step {a : Action} (h : Inv hash db) (hfresh : Fresh db a)
    (hstep : step hash db a = some db') : Inv hash db' := by
  cases step_turn hstep with
  | other => exact { h with }
  | added hraw hid => exact h.create (valid_generateToken _) hid (hfresh _ hraw)
  | changed raw hraw hmem hrevoked hids htokens hexact =>
    have hnew : ∀ r ∈ raw, ∀ row ∈ db.keys, generateToken r ∉ row.tokens :=
      fun r hr => hfresh r (hraw r hr)
    refine h.update (raw.map generateToken) hids htokens ?_ fun row hrow hkey => ?_
    · intro t ht
      obtain ⟨r, hr, rfl⟩ := Option.map_eq_some_iff.mp ht
      exact hnew r hr
    · obtain rfl := eq_of_key h.ids hrow hmem hkey
      exact hexact (h.exact row hrow) fun r hr => hnew r hr row hrow

/-- A revoked row is never changed. -/
theorem mem_step_of_revoked {a : Action} (h : Inv hash db) (hrow : row ∈ db.keys)
    (hrevoked : row.revokedAt ≠ none) (hstep : step hash db a = some db') : row ∈ db'.keys := by
  cases step_turn hstep with
  | other => exact hrow
  | added => exact mem_cons_of_mem _ hrow
  | changed raw hraw hmem hnone =>
    -- what changes a row has found that it is not revoked
    refine mem_update_of_not hrow fun hkey => ?_
    obtain rfl := eq_of_key h.ids hrow hmem hkey
    exact hrevoked hnone

/-- The token is the last of the key, or the one before it while that one is still
accepted. -/
def KeyRow.Accepts (row : KeyRow) (token : GoString) (now : Int) : Prop :=
  row.tokens.head? = some token ∨
    (row.tokens[1]? = some token ∧ ∃ until', row.openUntil = some until' ∧ now < until')

/-- The key is active, not expired and not revoked, and its creator is active. -/
structure Usable (db : Db) (row : KeyRow) (now : Int) : Prop where
  active : row.active = true
  expires : ∀ e, row.expiresAt = some e → now < e
  revoked : row.revokedAt = none
  creator : row.createdBy ∈ db.activeUsers

/-- No other token of a key has the hash of this one. -/
def KeyRow.Apart (hash : GoString → GoString) (token : GoString) (row : KeyRow) : Prop :=
  ∀ t ∈ row.tokens, hash t = hash token → t = token

/-- No token that was generated has the hash of this one, but it itself. -/
def CollisionFree (hash : GoString → GoString) (db : Db) (token : GoString) : Prop :=
  ∀ row ∈ db.keys, row.Apart hash token

section Verify

variable {token : GoString} {now : Int}

/-- The current hash is that of the last token. -/
theorem KeyRow.Exact.tokenHash_iff (h : row.Exact hash) (hapart : row.Apart hash token) :
    row.tokenHash = hash token ↔ row.tokens.head? = some token := by
  obtain ⟨last, hlast, hhash⟩ := h.current
  rw [hhash, hlast, Option.some.injEq]
  constructor
  · exact hapart last (mem_of_head? hlast)
  · exact congrArg hash

/-- The previous hash is that of the token before. -/
theorem KeyRow.Exact.of_previousTokenHash (h : row.Exact hash) (hapart : row.Apart hash token)
    (hhash : row.previousTokenHash = some (hash token)) :
    row.tokens[1]? = some token ∧
      ∃ until', row.openUntil = some until' ∧ row.previousExpiresAt = some until' := by
  have hopen : ¬ (row.revokedAt.isSome ∨ row.openUntil = none) := by
    intro hclosed
    rw [h.closed hclosed] at hhash
    cases hhash
  rw [not_or, Option.not_isSome_iff_eq_none] at hopen
  obtain ⟨until', huntil⟩ := Option.ne_none_iff_exists'.mp hopen.2
  obtain ⟨before, hbefore, hhash', hexpires⟩ := h.previous hopen.1 until' huntil
  rw [hhash', Option.some.injEq] at hhash
  rw [← hapart before (mem_of_getElem? hbefore) hhash]
  exact ⟨hbefore, until', huntil, hexpires⟩

/-- The last token is not the one before. -/
theorem KeyRow.Exact.head_ne (h : row.Exact hash) (hhead : row.tokens.head? = some token)
    (hbefore : row.tokens[1]? = some token) : False := by
  have hnodup := h.nodup
  cases htokens : row.tokens with
  | nil => simp [htokens] at hhead
  | cons a rest =>
    rw [htokens] at hhead hbefore hnodup
    cases hhead
    exact (nodup_cons.mp hnodup).1 (mem_of_getElem? hbefore)

/-- Accepted tokens are the key's. -/
theorem KeyRow.Accepts.mem (h : row.Accepts token now) : token ∈ row.tokens := by
  rcases h with hhead | ⟨hbefore, -⟩
  · exact mem_of_head? hhead
  · exact mem_of_getElem? hbefore

/-- The query finds the row of an accepted token. -/
theorem candidate_eq (h : Inv hash db) (hfree : CollisionFree hash db token) (hrow : row ∈ db.keys)
    (hrevoked : row.revokedAt = none) (haccepts : row.Accepts token now) :
    candidate hash db token = some row := by
  have hexact := h.exact row hrow
  -- a row that is found by either hash has the token
  have hcurrent : ∀ r, (db.keys.find? fun r => r.tokenHash = hash token) = some r →
      r.tokens.head? = some token ∧ r = row := by
    intro r hr
    have hmem := mem_of_find?_eq_some hr
    have hhead := ((h.exact r hmem).tokenHash_iff (hfree r hmem)).mp
      (by simpa using List.find?_some hr)
    exact ⟨hhead, h.eq_of_token hmem hrow (mem_of_head? hhead) haccepts.mem⟩
  have hprevious : ∀ r, (db.keys.find? fun r => r.previousTokenHash = some (hash token)) = some r →
      r = row := by
    intro r hr
    have hmem := mem_of_find?_eq_some hr
    have hbefore := ((h.exact r hmem).of_previousTokenHash (hfree r hmem)
      (by simpa using List.find?_some hr)).1
    exact h.eq_of_token hmem hrow (mem_of_getElem? hbefore) haccepts.mem
  unfold candidate
  cases hfind : db.keys.find? fun r => r.tokenHash = hash token with
  | some r =>
    rw [Option.some_or, (hcurrent r hfind).2]
  | none =>
    rw [Option.none_or]
    have hnone : ¬ row.tokens.head? = some token := by
      rw [← hexact.tokenHash_iff (hfree row hrow)]
      simpa using List.find?_eq_none.mp hfind row hrow
    obtain ⟨hbefore, until', huntil, -⟩ := haccepts.resolve_left hnone
    obtain ⟨before, hbefore', hhash, -⟩ := hexact.previous hrevoked until' huntil
    rw [hbefore, Option.some.injEq] at hbefore'
    cases hfind' : db.keys.find? fun r => r.previousTokenHash = some (hash token) with
    | some r => rw [hprevious r hfind']
    | none =>
      have hnot := List.find?_eq_none.mp hfind' row hrow
      rw [decide_eq_true_eq, hhash, hbefore'] at hnot
      exact absurd rfl hnot

/-- A row passes the checks of `Verify`. -/
def Passes (hash : GoString → GoString) (db : Db) (row : KeyRow) (token : GoString) (now : Int) :
    Prop :=
  Usable db row now ∧
    (row.previousTokenHash = some (hash token) → ∃ u, row.previousExpiresAt = some u ∧ now < u)

/-- Which checks a token passes. -/
theorem verify_eq_ok_iff : verify hash db token now = .ok row ↔
    validTokenFormat token = true ∧ candidate hash db token = some row ∧
      Passes hash db row token now := by
  have hstate : Usable db row now ↔
      verifyState row now = .ok () ∧ row.createdBy ∈ db.activeUsers := by
    rw [verifyState_eq_ok]
    exact ⟨fun h => ⟨⟨h.revoked, h.active, h.expires⟩, h.creator⟩,
      fun h => ⟨h.1.2.1, h.1.2.2, h.1.1, h.2⟩⟩
  unfold verify Passes
  cases hvalid : validTokenFormat token with
  | false => simp
  | true =>
    simp only [Bool.not_true, Bool.false_eq_true, if_false, true_and]
    cases hcandidate : candidate hash db token with
    | none => simp
    | some r =>
      simp only [Option.some.injEq]
      constructor
      · intro hok
        cases hs : verifyState r now with
        | error e =>
          rw [hs] at hok
          cases hok
        | ok u =>
          rw [hs] at hok
          dsimp only [Bind.bind, Except.bind] at hok
          split_ifs at hok with hcreator hgrace
          cases hok
          refine ⟨rfl, hstate.mpr ⟨hs, hcreator⟩, fun hhash => ?_⟩
          cases hexpires : row.previousExpiresAt with
          | none => simp [hhash, hexpires] at hgrace
          | some u => exact ⟨u, rfl, by simpa [hhash, hexpires] using hgrace⟩
      · rintro ⟨rfl, husable, hgrace⟩
        obtain ⟨hs, hcreator⟩ := hstate.mp husable
        rw [hs]
        dsimp only [Bind.bind, Except.bind]
        rw [if_neg (not_not.mpr hcreator), if_neg]
        rintro ⟨hhash, hclosed⟩
        obtain ⟨u, hu, hlt⟩ := hgrace hhash
        simp [hu, hlt] at hclosed

/-- **Which tokens verify**, in a table that is exact. -/
theorem verify_eq_ok (h : Inv hash db) (hfree : CollisionFree hash db token) :
    verify hash db token now = .ok row ↔
      row ∈ db.keys ∧ Usable db row now ∧ row.Accepts token now := by
  rw [verify_eq_ok_iff]
  constructor
  · rintro ⟨-, hcandidate, husable, hgrace⟩
    rcases Option.or_eq_some_iff.mp hcandidate with hfind | ⟨-, hfind⟩
    all_goals have hmem := mem_of_find?_eq_some hfind
    all_goals have hfound := List.find?_some hfind
    all_goals rw [decide_eq_true_eq] at hfound
    · exact ⟨hmem, husable, .inl (((h.exact row hmem).tokenHash_iff (hfree row hmem)).mp hfound)⟩
    · obtain ⟨hbefore, until', huntil, hexpires⟩ :=
        (h.exact row hmem).of_previousTokenHash (hfree row hmem) hfound
      obtain ⟨u, hu, hlt⟩ := hgrace hfound
      rw [hexpires, Option.some.injEq] at hu
      exact ⟨hmem, husable, .inr ⟨hbefore, until', huntil, hu ▸ hlt⟩⟩
  · rintro ⟨hmem, husable, haccepts⟩
    have hexact := h.exact row hmem
    have hvalid := hexact.valid token haccepts.mem
    refine ⟨hvalid, candidate_eq h hfree hmem husable.revoked haccepts, husable, fun hhash => ?_⟩
    obtain ⟨hbefore, until', huntil, hexpires⟩ :=
      hexact.of_previousTokenHash (hfree row hmem) hhash
    rcases haccepts with hhead | ⟨-, u, hu, hlt⟩
    · exact absurd hbefore fun hbefore => hexact.head_ne hhead hbefore
    · rw [huntil, Option.some.injEq] at hu
      exact ⟨until', hexpires, hu ▸ hlt⟩

end Verify

/-- **API keys over any run.**  A token verifies exactly if it is the last token of
a key, or the one before it in the grace of the last rotation and without the key
having been disabled since, and the key is active, not expired and not revoked and
its creator active; and once a key is revoked, none of its tokens ever verifies
again.  The tokens are ones whose hash no other generated token has. -/
theorem verify_iff {actions : List Action}
    (hfresh : Along (step hash) Fresh Db.empty actions)
    (hrun : run (step hash) Db.empty actions = some db) :
    (∀ token, CollisionFree hash db token → ∀ now, (∃ row, verify hash db token now = .ok row) ↔
      ∃ row ∈ db.keys, Usable db row now ∧ row.Accepts token now) ∧
    ∀ later db', Along (step hash) Fresh db later → run (step hash) db later = some db' →
      ∀ row ∈ db.keys, row.revokedAt ≠ none →
        row ∈ db'.keys ∧ ∀ token ∈ row.tokens, CollisionFree hash db' token →
          ∀ now row', verify hash db' token now ≠ .ok row' := by
  have hinv : Inv hash db := run_invariant_along (fun _ _ _ => inv_step) inv_empty hfresh hrun
  refine ⟨fun token hfree now => ?_, ?_⟩
  · constructor
    · rintro ⟨row, hrow⟩
      exact ⟨row, (verify_eq_ok hinv hfree).mp hrow⟩
    · rintro ⟨row, hrow⟩
      exact ⟨row, (verify_eq_ok hinv hfree).mpr hrow⟩
  · intro later db' hlater hrun' row hrow hrevoked
    have hboth : Inv hash db' ∧ row ∈ db'.keys :=
      run_invariant_along (I := fun d => Inv hash d ∧ row ∈ d.keys)
        (fun d a t h hok hstep =>
          ⟨inv_step h.1 hok hstep, mem_step_of_revoked h.1 h.2 hrevoked hstep⟩)
        ⟨hinv, hrow⟩ hlater hrun'
    refine ⟨hboth.2, fun token htoken hfree now row' hverify => ?_⟩
    obtain ⟨hmem, husable, haccepts⟩ := (verify_eq_ok hboth.1 hfree).mp hverify
    obtain rfl := hboth.1.eq_of_token hboth.2 hmem htoken haccepts.mem
    exact hrevoked husable.revoked

/-- A token that is written out. -/
def rawOf (b : UInt8) : Raw := ⟨List.replicate 32 b, rfl⟩

/-- One key that was rotated with a grace of ten minutes, disabled and enabled again. -/
def reenabled : List Action :=
  [.manage [lit "c"] [lit "u"],
    .create (lit "k") (rawOf 0) ⟨lit "c", lit "deploy", [lit "cluster.read"], none, lit "u"⟩ 0 0,
    .rotate (lit "c") (lit "k") (rawOf 1) 600000000000 0,
    .update (lit "c") (lit "k") ⟨none, none, some false, none⟩,
    .update (lit "c") (lit "k") ⟨none, none, some true, none⟩]

theorem reenabled_fresh : Along (step id) Fresh Db.empty reenabled := by
  decide +kernel

/-- The runs of the statement above exist. -/
theorem verify_iff_reenabled :
    ∃ db, run (step id) Db.empty reenabled = some db ∧
      ((∃ row, verify id db (generateToken (rawOf 1)) 1 = .ok row) ↔
        ∃ row ∈ db.keys, Usable db row 1 ∧ row.Accepts (generateToken (rawOf 1)) 1) := by
  obtain ⟨db, hrun⟩ : ∃ db, run (step id) Db.empty reenabled = some db := ⟨_, rfl⟩
  have hfree : CollisionFree id db (generateToken (rawOf 1)) := fun _ _ _ _ h => h
  exact ⟨db, hrun, (verify_iff reenabled_fresh hrun).1 _ hfree 1⟩

/-- One nanosecond after the rotation, the token before the last does not verify
although the key is active again. -/
theorem grace_closed_by_disabling :
    ∃ db, run (step id) Db.empty reenabled = some db ∧
      (∃ row ∈ db.keys, Usable db row 1 ∧ row.tokens[1]? = some (generateToken (rawOf 0))) ∧
      verify id db (generateToken (rawOf 0)) 1 = .error .invalid := by
  refine ⟨_, rfl, ⟨_, mem_cons_self, ⟨rfl, nofun, rfl, mem_singleton_self _⟩, rfl⟩, ?_⟩
  decide +kernel

end ApiKeys
