/-
  Logins, callbacks and the admin requests on providers, side by side.

  * The state is what they share, the registry, the store and the transactions,
    and where each request stands.  `begun`, `exchanges`, `sessions` and
    `applied` are the record of what was done, oldest first;
  * a `SignOnOp` is one request taking its next step: any interleaving is a list
    of them.  A request that is not about to do what the step says stays as it
    is;
  * `Move` says once what a step can do.
-/
import SessionBroker.Callback
import SessionBroker.Lib.Run
import SessionBroker.ProviderAdmin

namespace SessionBroker

open Runs

/-- A session, and the login it comes from. -/
structure SignedIn where
  sid : Sid
  sub : String
  providerId : String
  issuer : String
  upstreamSub : String
deriving DecidableEq, Repr

structure SignOn where
  registry : ProviderRegistry
  db : Db
  txns : TxnStore
  logins : ℕ → BeginStage
  callbacks : ℕ → Option Callback
  admins : ℕ → AdminStage
  begun : List (String × TxnRecord)
  exchanges : List Exchange
  sessions : List SignedIn
  applied : List ProviderRequest

/-- The key ring of the store, and how a URL is parsed. -/
structure SignOnEnv where
  ring : KeyRing
  parseUrl : String → Except String Url

/-! ## Steps -/

inductive LoginOp where
  | arrive (requested : Option String)
  | connected (discovery : Discovery) (draw : LoginDraw) (now : Timestamp)

inductive CallbackOp where
  | arrive (txnId : String) (query : CallbackQuery) (now : Timestamp)
  | readTxn
  | readEntry
  | connected (discovery : Discovery)
  | redeem
  | discard
  | exchanged (answer : Except OauthError UpstreamGrant)
  | checkSubject
  | takeCustody (custodyId : CustodyId) (nextRefresh : Timestamp) (fails : Bool)
  | createSession (sid : Sid)

inductive AdminOp where
  | arrive (request : ProviderRequest)
  | read
  | readNamespace (fails : Bool)
  | connect (now : Timestamp) (discovery : Discovery)
  | write (now : Timestamp) (fails : Bool)
  | install

/-- The next step of one request. -/
inductive SignOnOp where
  | login (r : ℕ) (op : LoginOp)
  | callback (r : ℕ) (op : CallbackOp)
  | admin (r : ℕ) (op : AdminOp)

/-- The id a login draws for its transaction. -/
def SignOnOp.draws : SignOnOp → Option String
  | .login _ (.connected _ draw _) => some draw.txnId
  | _ => none

namespace SignOn

/-- A process that has served no request. -/
def start (registry : ProviderRegistry) (db : Db) : SignOn where
  registry
  db
  txns := fun _ => none
  logins := fun _ => .idle
  callbacks := fun _ => none
  admins := fun _ => .idle
  begun := []
  exchanges := []
  sessions := []
  applied := []

/-- The process that boots on a store. -/
def boot (env : SignOnEnv) (db : Db) (config : Option (OidcConfig × Bool)) : SignOn :=
  start (.boot (db.identityProvider.map (·.settings env.ring)) config) db

def setLogin (s : SignOn) (r : ℕ) (stage : BeginStage) : SignOn :=
  { s with logins := Function.update s.logins r stage }

def setCallback (s : SignOn) (r : ℕ) (c : Callback) (stage : CallbackStage) : SignOn :=
  { s with callbacks := Function.update s.callbacks r (some { c with stage }) }

def setAdmin (s : SignOn) (r : ℕ) (stage : AdminStage) : SignOn :=
  { s with admins := Function.update s.admins r stage }

/-- A login stores its transaction. -/
def begin_ (s : SignOn) (txnId : String) (record : TxnRecord) : SignOn :=
  { s with txns := s.txns.insert txnId record, begun := s.begun ++ [(txnId, record)] }

/-- `SessionMap::create`, as far as logins go. -/
def signIn (s : SignOn) (x : SignedIn) : SignOn := { s with sessions := s.sessions ++ [x] }

/-- What holds of the request that moved, and of the others. -/
theorem forall_setAdmin {P : ℕ → AdminStage → Prop} {s : SignOn} {r : ℕ} {stage : AdminStage}
    (hself : P r stage) (hother : ∀ r' ≠ r, P r' (s.admins r')) (r' : ℕ) :
    P r' ((s.setAdmin r stage).admins r') := by
  show P r' (Function.update s.admins r stage r')
  by_cases hr : r' = r
  · rw [hr, Function.update_self]
    exact hself
  · rw [Function.update_of_ne hr]
    exact hother r' hr

def stepLogin (s : SignOn) (r : ℕ) (op : LoginOp) : SignOn :=
  match s.logins r, op with
  | .idle, .arrive requested => s.setLogin r (.ofEntry (s.registry.entryForLogin requested))
  | .connecting entry, .connected discovery draw now =>
    match s.registry.clientOf entry discovery with
    | (.ok client, registry) =>
      ({ s with registry }.begin_ draw.txnId (client.beginLogin draw now)).setLogin r
        (.begun draw.txnId)
    | (.error failure, registry) => { s with registry }.setLogin r (.refused (.unavailable failure))
  | _, _ => s

/-- A request without the cookie is answered at once, and is not followed. -/
def stepCallback (env : SignOnEnv) (s : SignOn) (r : ℕ) (op : CallbackOp) : SignOn :=
  match s.callbacks r with
  | none =>
    match op with
    | .arrive txnId query now => s.setCallback r ⟨txnId, query, now, .arrived⟩ .arrived
    | _ => s
  | some c =>
    match c.stage, op with
    | .arrived, .readTxn => s.setCallback r c (.readTxn s.txns c.txnId)
    | .named providerId, .readEntry => s.setCallback r c (.readEntry s.registry providerId)
    | .connecting entry, .connected discovery =>
      { s with registry := (s.registry.clientOf entry discovery).2 }.setCallback r c
        (.ofClient (s.registry.clientOf entry discovery).1)
    | .connected client, .redeem =>
      { s with
          txns := (c.redeem client s.txns).1
          exchanges := s.exchanges ++ (c.redeem client s.txns).2.1.toList }.setCallback r c
        (c.redeem client s.txns).2.2
    | .discarding error, .discard =>
      { s with txns := s.txns.discard c.txnId }.setCallback r c (.failed error.code)
    | .exchanging client, .exchanged answer => s.setCallback r c (.ofGrant client c.now answer)
    | .identified client upstreamSub tokens, .checkSubject =>
      s.setCallback r c (.checkSubject s.registry client upstreamSub tokens)
    | .admitted client upstreamSub tokens, .takeCustody custodyId nextRefresh fails =>
      match s.db.insertCustody env.ring (tokens.custodyRow custodyId nextRefresh c.now), fails with
      | some db, false => { s with db }.setCallback r c (.inCustody client upstreamSub tokens)
      | _, _ => s.setCallback r c (.failed "custody_failed")
    | .inCustody client upstreamSub tokens, .createSession sid =>
      (s.signIn ⟨sid, tokens.sub, client.providerId, client.issuer, upstreamSub⟩).setCallback r c
        (.signedIn sid)
    | _, _ => s

def stepAdmin (env : SignOnEnv) (s : SignOn) (r : ℕ) (op : AdminOp) : SignOn :=
  match s.admins r, op with
  | .idle, .arrive request => s.setAdmin r (request.arrive env.parseUrl)
  | .reading request, .read => s.setAdmin r (request.read env.parseUrl s.registry)
  | .naming job, .readNamespace fails => s.setAdmin r (job.readNamespace s.db fails)
  | .connecting job, .connect now discovery =>
    s.setAdmin r (job.connect s.registry now discovery)
  | .writing job, .write now fails =>
    { s with db := (job.write env.ring s.db now fails).1 }.setAdmin r
      (job.write env.ring s.db now fails).2
  | .installing job, .install =>
    { s with
        registry := s.registry.install job.next job.client
        applied := s.applied ++ [job.request] }.setAdmin r (.answered job.request (.ok job.success))
  | _, _ => s

def step (env : SignOnEnv) (s : SignOn) : SignOnOp → SignOn
  | .login r op => s.stepLogin r op
  | .callback r op => s.stepCallback env r op
  | .admin r op => s.stepAdmin env r op

/-! ## What a step can do -/

/-- One request takes its next step. -/
inductive Move (env : SignOnEnv) (s : SignOn) : SignOnOp → SignOn → Prop
  | loginArrive {r requested} : s.logins r = .idle →
      Move env s (.login r (.arrive requested))
        (s.setLogin r (.ofEntry (s.registry.entryForLogin requested)))
  | loginRefused {r entry discovery draw now refusal} : s.logins r = .connecting entry →
      Move env s (.login r (.connected discovery draw now))
        ({ s with registry := (s.registry.clientOf entry discovery).2 }.setLogin r
          (.refused refusal))
  | loginBegun {r entry discovery draw now client} : s.logins r = .connecting entry →
      (s.registry.clientOf entry discovery).1 = .ok client →
      Move env s (.login r (.connected discovery draw now))
        (({ s with registry := (s.registry.clientOf entry discovery).2 }.begin_ draw.txnId
          (client.beginLogin draw now)).setLogin r (.begun draw.txnId))
  | arrive {r txnId query now} : s.callbacks r = none →
      Move env s (.callback r (.arrive txnId query now))
        (s.setCallback r ⟨txnId, query, now, .arrived⟩ .arrived)
  | readTxn {r c} : s.callbacks r = some c → c.stage = .arrived →
      Move env s (.callback r .readTxn) (s.setCallback r c (.readTxn s.txns c.txnId))
  | readEntry {r c providerId} : s.callbacks r = some c → c.stage = .named providerId →
      Move env s (.callback r .readEntry) (s.setCallback r c (.readEntry s.registry providerId))
  | connected {r c entry discovery} : s.callbacks r = some c → c.stage = .connecting entry →
      Move env s (.callback r (.connected discovery))
        ({ s with registry := (s.registry.clientOf entry discovery).2 }.setCallback r c
          (.ofClient (s.registry.clientOf entry discovery).1))
  | redeem {r c client} : s.callbacks r = some c → c.stage = .connected client →
      Move env s (.callback r .redeem)
        ({ s with
            txns := (c.redeem client s.txns).1
            exchanges := s.exchanges ++ (c.redeem client s.txns).2.1.toList }.setCallback r c
          (c.redeem client s.txns).2.2)
  | discard {r c error} : s.callbacks r = some c → c.stage = .discarding error →
      Move env s (.callback r .discard)
        ({ s with txns := s.txns.discard c.txnId }.setCallback r c (.failed error.code))
  | exchanged {r c client answer} : s.callbacks r = some c → c.stage = .exchanging client →
      Move env s (.callback r (.exchanged answer)) (s.setCallback r c (.ofGrant client c.now answer))
  | checkSubject {r c client upstreamSub tokens} : s.callbacks r = some c →
      c.stage = .identified client upstreamSub tokens →
      Move env s (.callback r .checkSubject)
        (s.setCallback r c (.checkSubject s.registry client upstreamSub tokens))
  | custodyFailed {r c client upstreamSub tokens custodyId nextRefresh fails} :
      s.callbacks r = some c → c.stage = .admitted client upstreamSub tokens →
      Move env s (.callback r (.takeCustody custodyId nextRefresh fails))
        (s.setCallback r c (.failed "custody_failed"))
  | takeCustody {r c client upstreamSub tokens custodyId nextRefresh fails db} :
      s.callbacks r = some c → c.stage = .admitted client upstreamSub tokens →
      s.db.insertCustody env.ring (tokens.custodyRow custodyId nextRefresh c.now) = some db →
      Move env s (.callback r (.takeCustody custodyId nextRefresh fails))
        ({ s with db }.setCallback r c (.inCustody client upstreamSub tokens))
  | createSession {r c client upstreamSub tokens sid} : s.callbacks r = some c →
      c.stage = .inCustody client upstreamSub tokens →
      Move env s (.callback r (.createSession sid))
        ((s.signIn ⟨sid, tokens.sub, client.providerId, client.issuer, upstreamSub⟩).setCallback r c
          (.signedIn sid))
  | adminArrive {r request} : s.admins r = .idle →
      Move env s (.admin r (.arrive request)) (s.setAdmin r (request.arrive env.parseUrl))
  | adminRead {r request} : s.admins r = .reading request →
      Move env s (.admin r .read) (s.setAdmin r (request.read env.parseUrl s.registry))
  | adminNamespace {r job fails} : s.admins r = .naming job →
      Move env s (.admin r (.readNamespace fails)) (s.setAdmin r (job.readNamespace s.db fails))
  | adminConnect {r job now discovery} : s.admins r = .connecting job →
      Move env s (.admin r (.connect now discovery))
        (s.setAdmin r (job.connect s.registry now discovery))
  | adminWrite {r job now fails} : s.admins r = .writing job →
      Move env s (.admin r (.write now fails))
        ({ s with db := (job.write env.ring s.db now fails).1 }.setAdmin r
          (job.write env.ring s.db now fails).2)
  | adminInstall {r job} : s.admins r = .installing job →
      Move env s (.admin r .install)
        ({ s with
            registry := s.registry.install job.next job.client
            applied := s.applied ++ [job.request] }.setAdmin r
          (.answered job.request (.ok job.success)))

variable {env : SignOnEnv} {s : SignOn}

theorem stepLogin_move (r : ℕ) (op : LoginOp) :
    s.stepLogin r op = s ∨ Move env s (.login r op) (s.stepLogin r op) := by
  unfold stepLogin
  split
  · exact Or.inr (.loginArrive ‹_›)
  · rename_i entry discovery draw now hstage
    split
    · rename_i client registry hcl
      have hreg : (s.registry.clientOf entry discovery).2 = registry := congrArg Prod.snd hcl
      exact Or.inr (hreg ▸ .loginBegun hstage (congrArg Prod.fst hcl))
    · rename_i failure registry hcl
      have hreg : (s.registry.clientOf entry discovery).2 = registry := congrArg Prod.snd hcl
      exact Or.inr (hreg ▸ .loginRefused hstage)
  · exact Or.inl rfl

theorem stepCallback_move (r : ℕ) (op : CallbackOp) :
    s.stepCallback env r op = s ∨ Move env s (.callback r op) (s.stepCallback env r op) := by
  unfold stepCallback
  split
  · rename_i hnone
    split
    · exact Or.inr (.arrive hnone)
    · exact Or.inl rfl
  · rename_i c hc
    split
    · exact Or.inr (.readTxn hc ‹_›)
    · exact Or.inr (.readEntry hc ‹_›)
    · exact Or.inr (.connected hc ‹_›)
    · exact Or.inr (.redeem hc ‹_›)
    · exact Or.inr (.discard hc ‹_›)
    · exact Or.inr (.exchanged hc ‹_›)
    · exact Or.inr (.checkSubject hc ‹_›)
    · split
      · exact Or.inr (.takeCustody hc ‹_› ‹_›)
      · exact Or.inr (.custodyFailed hc ‹_›)
    · exact Or.inr (.createSession hc ‹_›)
    · exact Or.inl rfl

theorem stepAdmin_move (r : ℕ) (op : AdminOp) :
    s.stepAdmin env r op = s ∨ Move env s (.admin r op) (s.stepAdmin env r op) := by
  unfold stepAdmin
  split
  · exact Or.inr (.adminArrive ‹_›)
  · exact Or.inr (.adminRead ‹_›)
  · exact Or.inr (.adminNamespace ‹_›)
  · exact Or.inr (.adminConnect ‹_›)
  · exact Or.inr (.adminWrite ‹_›)
  · exact Or.inr (.adminInstall ‹_›)
  · exact Or.inl rfl

/-- **A step changes nothing, or is a move.** -/
theorem step_move (op : SignOnOp) : s.step env op = s ∨ Move env s op (s.step env op) := by
  cases op with
  | login r op => exact stepLogin_move r op
  | callback r op => exact stepCallback_move r op
  | admin r op => exact stepAdmin_move r op

end SignOn

end SessionBroker
