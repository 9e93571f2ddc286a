import LimbWorker.AppTasks.TaskParser

/-!
# The configuration file

`JsonParser::getConfig` with the functions it is made of. Of the transport section the defaults come first,
and the file has no key for the prefetch count.

A file that is not JSON is an exception, as the result of the parser is converted to an element. Every other
file that is not accepted gives `kIncomplete`, and that is a status for which there is no message.
-/

namespace LimbWorker.AppConfig

open AppTasks (Json SimdjsonError)

structure AmqpConfig where
  user : String := ""
  passwd : String := ""
  host : String := ""
  port : Nat := 0
  heartbeat : Nat := 0
  prefetchCount : Nat := 0
  deriving DecidableEq, Repr

/-- `tryDefaultsAmqpTransport`. -/
def tryDefaultsAmqpTransport (conf : AmqpConfig) : AmqpConfig :=
  let conf := if conf.heartbeat = 0 then { conf with heartbeat := 60 } else conf
  if conf.prefetchCount = 0 then { conf with prefetchCount := 20 } else conf

/-- `tryFillAmqpTransport`, with the record as it was left. -/
def tryFillAmqpTransport (transport : Json) (conf : AmqpConfig) : ReturnStatus × AmqpConfig :=
  match transport.atKey "type" >>= Json.get_string with
  | .error _ => (.kIncomplete, conf)
  | .ok type =>
  if type ≠ "amqp" then (.kIncomplete, conf)
  else match transport.atKey "user" >>= Json.get_string with
  | .error _ => (.kIncomplete, conf)
  | .ok user =>
  let conf := { conf with user := user }
  match transport.atKey "passwd" >>= Json.get_string with
  | .error _ => (.kIncomplete, conf)
  | .ok passwd =>
  let conf := { conf with passwd := passwd }
  match transport.atKey "host" >>= Json.get_string with
  | .error _ => (.kIncomplete, conf)
  | .ok host =>
  let conf := { conf with host := host }
  match transport.atKey "port" >>= Json.get_uint64 with
  | .error _ => (.kIncomplete, conf)
  | .ok port =>
  if port > 0xFFFF then (.kIncomplete, conf) else (.kOk, { conf with port := port })

/-- The branch of `parseDocument` for a configuration with a transport section. -/
def fillTransport (transport : Json) (conf : AmqpConfig) : ReturnStatus × AmqpConfig :=
  tryFillAmqpTransport transport (tryDefaultsAmqpTransport conf)

/-- The file has no say in the prefetch count. -/
theorem prefetchCount_tryFillAmqpTransport (transport : Json) (conf : AmqpConfig) :
    (tryFillAmqpTransport transport conf).2.prefetchCount = conf.prefetchCount := by
  unfold tryFillAmqpTransport
  repeat' split
  all_goals rfl

/-- **The prefetch count that the configuration yields**: 20, unless the record already had one. -/
theorem prefetchCount_fillTransport (transport : Json) (conf : AmqpConfig) :
    (fillTransport transport conf).2.prefetchCount =
      if conf.prefetchCount = 0 then 20 else conf.prefetchCount := by
  rw [fillTransport, prefetchCount_tryFillAmqpTransport]
  by_cases hheartbeat : conf.heartbeat = 0 <;> by_cases hprefetch : conf.prefetchCount = 0 <;>
    simp [tryDefaultsAmqpTransport, hheartbeat, hprefetch]

/-! ## The whole file -/

structure MongoConfig where
  uri : String := ""
  dbName : String := ""
  deriving DecidableEq, Repr

set_option linter.dupNamespace false in
/-- `AppConfig`, as far as the file has a say in it. -/
structure AppConfig where
  dbConfig : MongoConfig := {}
  transportConfig : AmqpConfig := {}
  deriving DecidableEq, Repr

/-- `tryFillMongoConfig`, with the record as it was left. -/
def tryFillMongoConfig (database : Json) (conf : MongoConfig) : ReturnStatus × MongoConfig :=
  match database.atKey "type" >>= Json.get_string with
  | .error _ => (.kIncomplete, conf)
  | .ok type =>
  if type ≠ "mongo" then (.kIncomplete, conf)
  else match database.atKey "uri" >>= Json.get_string with
  | .error _ => (.kIncomplete, conf)
  | .ok uri =>
  let conf := { conf with uri := uri }
  match database.atKey "dbName" >>= Json.get_string with
  | .error _ => (.kIncomplete, conf)
  | .ok dbName => (.kOk, { conf with dbName := dbName })

/-- `parseDocument`, with the record as it was left. -/
def parseDocument (doc : Json) (conf : AppConfig) : ReturnStatus × AppConfig :=
  match doc.atKey "application" with
  | .error _ => (.kIncomplete, conf)
  | .ok app =>
      let (ret, conf) : ReturnStatus × AppConfig :=
        match app.atKey "database" with
        | .ok database =>
            let (ret, dbConfig) := tryFillMongoConfig database conf.dbConfig
            (ret, { conf with dbConfig := dbConfig })
        | .error _ => (.kIncomplete, conf)
      if ret ≠ .kOk then (ret, conf)
      else
        match app.atKey "transport" with
        | .ok transport =>
            let (ret, transportConfig) := fillTransport transport conf.transportConfig
            (ret, { conf with transportConfig := transportConfig })
        | .error _ => (.kIncomplete, conf)

/-- What `JsonParser` works with: the bytes of a file, if it can be read, and simdjson's parser. -/
structure Environment where
  load : String → Option Bytes
  parse : Bytes → Except SimdjsonError Json

/-- `g_defaultConfigPath`. -/
def defaultConfigPath : String := "./config.json"

/-- `JsonParser::getConfig`; an exception is an error. -/
def getConfig (env : Environment) (m_customFilepath : String) (conf : AppConfig) :
    Except SimdjsonError (ReturnStatus × AppConfig) :=
  let json := if m_customFilepath ≠ "" then env.load m_customFilepath else env.load defaultConfigPath
  match json with
  | none => .ok (.kIncomplete, conf)
  | some json => (env.parse json).map fun doc => parseDocument doc conf

/-! ## What is accepted -/

/-- What a configuration file says. -/
structure Settings where
  uri : String
  dbName : String
  user : String
  passwd : String
  host : String
  port : Nat

/-- The database section. -/
def IsDatabase (database : Json) (settings : Settings) : Prop :=
  database.HasField "type" (.string "mongo") ∧ database.HasField "uri" (.string settings.uri) ∧
    database.HasField "dbName" (.string settings.dbName)

/-- The transport section; the port is unsigned and has 16 bits. -/
def IsTransport (transport : Json) (settings : Settings) : Prop :=
  transport.HasField "type" (.string "amqp") ∧ transport.HasField "user" (.string settings.user) ∧
    transport.HasField "passwd" (.string settings.passwd) ∧
    transport.HasField "host" (.string settings.host) ∧
    transport.HasField "port" (.int settings.port) ∧ settings.port ≤ 0xFFFF

/-- The document is a configuration with these settings. -/
def IsConfiguration (doc : Json) (settings : Settings) : Prop :=
  ∃ app database transport, doc.HasField "application" app ∧
    app.HasField "database" database ∧ IsDatabase database settings ∧
    app.HasField "transport" transport ∧ IsTransport transport settings

/-- The file can be read, is JSON, and is a configuration. -/
def Acceptable (env : Environment) (m_customFilepath : String) (settings : Settings) : Prop :=
  ∃ json doc, env.load (if m_customFilepath ≠ "" then m_customFilepath else defaultConfigPath) = some json ∧
    env.parse json = .ok doc ∧ IsConfiguration doc settings

variable {database transport doc : Json} {settings : Settings}

/-! ## The sections -/

/-- A database section is stored as it is. -/
theorem tryFillMongoConfig_of (h : IsDatabase database settings) (conf : MongoConfig) :
    tryFillMongoConfig database conf = (.kOk, ⟨settings.uri, settings.dbName⟩) := by
  obtain ⟨htype, huri, hdbName⟩ := h
  unfold tryFillMongoConfig
  rw [Json.string_at_eq_ok.mpr htype, Json.string_at_eq_ok.mpr huri, Json.string_at_eq_ok.mpr hdbName]
  simp

/-- Only a database section is accepted. -/
theorem exists_isDatabase {conf : MongoConfig} (h : (tryFillMongoConfig database conf).1 = .kOk) :
    ∃ uri dbName, ∀ user passwd host port, IsDatabase database ⟨uri, dbName, user, passwd, host, port⟩ := by
  unfold tryFillMongoConfig at h
  split at h
  · cases h
  · next type htype =>
    split at h
    · cases h
    · next hmongo =>
      obtain rfl : type = "mongo" := by simpa using hmongo
      split at h
      · cases h
      · next uri huri =>
        dsimp only at h
        split at h
        · cases h
        · next dbName hdbName =>
          exact ⟨uri, dbName, fun _ _ _ _ => ⟨Json.string_at_eq_ok.mp htype, Json.string_at_eq_ok.mp huri,
            Json.string_at_eq_ok.mp hdbName⟩⟩

theorem tryFillMongoConfig_status (database : Json) (conf : MongoConfig) :
    (tryFillMongoConfig database conf).1 = .kOk ∨ (tryFillMongoConfig database conf).1 = .kIncomplete := by
  unfold tryFillMongoConfig
  repeat' split
  all_goals simp

/-- A transport section is stored as it is. -/
theorem tryFillAmqpTransport_of (h : IsTransport transport settings) (conf : AmqpConfig) :
    tryFillAmqpTransport transport conf = (.kOk, { conf with
      user := settings.user
      passwd := settings.passwd
      host := settings.host
      port := settings.port }) := by
  obtain ⟨htype, huser, hpasswd, hhost, hport, hle⟩ := h
  unfold tryFillAmqpTransport
  rw [Json.string_at_eq_ok.mpr htype, Json.string_at_eq_ok.mpr huser, Json.string_at_eq_ok.mpr hpasswd,
    Json.string_at_eq_ok.mpr hhost, Json.uint64_at_eq_ok.mpr hport]
  simp [Nat.not_lt.mpr hle]

/-- Only a transport section is accepted. -/
theorem exists_isTransport {conf : AmqpConfig} (h : (tryFillAmqpTransport transport conf).1 = .kOk) :
    ∃ user passwd host port, ∀ uri dbName,
      IsTransport transport ⟨uri, dbName, user, passwd, host, port⟩ := by
  unfold tryFillAmqpTransport at h
  split at h
  · cases h
  · next type htype =>
    split at h
    · cases h
    · next hamqp =>
      obtain rfl : type = "amqp" := by simpa using hamqp
      split at h
      · cases h
      · next user huser =>
        dsimp only at h
        split at h
        · cases h
        · next passwd hpasswd =>
          split at h
          · cases h
          · next host hhost =>
            split at h
            · cases h
            · next port hport =>
              split at h
              · cases h
              · next hle =>
                exact ⟨user, passwd, host, port, fun _ _ => ⟨Json.string_at_eq_ok.mp htype,
                  Json.string_at_eq_ok.mp huser, Json.string_at_eq_ok.mp hpasswd,
                  Json.string_at_eq_ok.mp hhost, Json.uint64_at_eq_ok.mp hport, Nat.not_lt.mp hle⟩⟩

theorem tryFillAmqpTransport_status (transport : Json) (conf : AmqpConfig) :
    (tryFillAmqpTransport transport conf).1 = .kOk ∨
      (tryFillAmqpTransport transport conf).1 = .kIncomplete := by
  unfold tryFillAmqpTransport
  repeat' split
  all_goals simp

/-! ## The document -/

/-- The record that a configuration leaves: its settings, and the defaults for what it cannot set. -/
def Settings.store (settings : Settings) (conf : AppConfig) : AppConfig where
  dbConfig := ⟨settings.uri, settings.dbName⟩
  transportConfig := { tryDefaultsAmqpTransport conf.transportConfig with
    user := settings.user
    passwd := settings.passwd
    host := settings.host
    port := settings.port }

/-- A configuration is accepted and stored. -/
theorem parseDocument_of (h : IsConfiguration doc settings) (conf : AppConfig) :
    parseDocument doc conf = (.kOk, settings.store conf) := by
  obtain ⟨app, database, transport, happ, hdatabase, hisdatabase, htransport, histransport⟩ := h
  unfold parseDocument fillTransport
  rw [Json.atKey_eq_ok.mpr happ]
  dsimp only
  rw [Json.atKey_eq_ok.mpr hdatabase, Json.atKey_eq_ok.mpr htransport]
  simp only [tryFillMongoConfig_of hisdatabase, tryFillAmqpTransport_of histransport, ne_eq,
    not_true_eq_false, if_false]
  rfl

/-- Only a configuration is accepted. -/
theorem exists_isConfiguration {conf : AppConfig} (h : (parseDocument doc conf).1 = .kOk) :
    ∃ settings, IsConfiguration doc settings := by
  unfold parseDocument at h
  cases happ : doc.atKey "application" with
  | error e =>
      rw [happ] at h
      cases h
  | ok app =>
      rw [happ] at h
      dsimp only at h
      cases hdatabase : app.atKey "database" with
      | error e =>
          rw [hdatabase] at h
          cases h
      | ok database =>
          rw [hdatabase] at h
          dsimp only at h
          split at h
          · next hret => exact absurd h hret
          · next hret =>
            -- the transport is read only after the database has been
            rw [not_not] at hret
            cases htransport : app.atKey "transport" with
            | error e =>
                rw [htransport] at h
                cases h
            | ok transport =>
                rw [htransport] at h
                obtain ⟨uri, dbName, hisdatabase⟩ := exists_isDatabase hret
                obtain ⟨user, passwd, host, port, histransport⟩ := exists_isTransport h
                exact ⟨⟨uri, dbName, user, passwd, host, port⟩, app, database, transport,
                  Json.atKey_eq_ok.mp happ, Json.atKey_eq_ok.mp hdatabase, hisdatabase _ _ _ _,
                  Json.atKey_eq_ok.mp htransport, histransport _ _⟩

/-- What is not accepted is incomplete. -/
theorem parseDocument_status (doc : Json) (conf : AppConfig) :
    (parseDocument doc conf).1 = .kOk ∨ (parseDocument doc conf).1 = .kIncomplete := by
  unfold parseDocument
  cases doc.atKey "application" with
  | error e => exact Or.inr rfl
  | ok app =>
      dsimp only
      cases app.atKey "database" with
      | error e => exact Or.inr rfl
      | ok database =>
          dsimp only
          split
          · exact tryFillMongoConfig_status database conf.dbConfig
          · cases app.atKey "transport" with
            | error e => exact Or.inr rfl
            | ok transport => exact tryFillAmqpTransport_status transport _

/-! ## Loading -/

variable {env : Environment} {m_customFilepath : String} {conf : AppConfig}

/-- Loading a configuration is total and exact: it returns a status, `kOk` just for an acceptable file; then the
settings are stored unchanged and the two numbers that have a default are as before, unless they were zero, and
not zero; and every status it returns has a message. -/
structure TotalAndExact (env : Environment) (m_customFilepath : String) (conf : AppConfig) : Prop where
  returns : ∃ ret conf', getConfig env m_customFilepath conf = .ok (ret, conf')
  accepts : (∃ conf', getConfig env m_customFilepath conf = .ok (.kOk, conf')) ↔
    ∃ settings, Acceptable env m_customFilepath settings
  stored : ∀ conf', getConfig env m_customFilepath conf = .ok (.kOk, conf') →
    ∀ settings, Acceptable env m_customFilepath settings → conf' = settings.store conf
  defaults : ∀ conf', getConfig env m_customFilepath conf = .ok (.kOk, conf') →
    conf'.transportConfig.heartbeat ≠ 0 ∧ conf'.transportConfig.prefetchCount ≠ 0 ∧
    (conf.transportConfig.heartbeat ≠ 0 →
      conf'.transportConfig.heartbeat = conf.transportConfig.heartbeat) ∧
    (conf.transportConfig.prefetchCount ≠ 0 →
      conf'.transportConfig.prefetchCount = conf.transportConfig.prefetchCount)
  reportable : ∀ ret conf', getConfig env m_customFilepath conf = .ok (ret, conf') →
    ret.getErrorMessage.isSome

/-- Either way it is one file that is loaded. -/
theorem load_path (env : Environment) (m_customFilepath : String) :
    (if m_customFilepath ≠ "" then env.load m_customFilepath else env.load defaultConfigPath) =
      env.load (if m_customFilepath ≠ "" then m_customFilepath else defaultConfigPath) :=
  (apply_ite env.load _ _ _).symm

/-- An acceptable file is loaded. -/
theorem getConfig_of_acceptable {settings : Settings} (h : Acceptable env m_customFilepath settings) :
    getConfig env m_customFilepath conf = .ok (.kOk, settings.store conf) := by
  obtain ⟨json, doc, hload, hparse, hdoc⟩ := h
  unfold getConfig
  rw [load_path, hload]
  show (env.parse json).map _ = _
  rw [hparse]
  exact congrArg Except.ok (parseDocument_of hdoc conf)

/-- What `getConfig` returns for other files. -/
theorem getConfig_cases {ret : ReturnStatus} {conf' : AppConfig}
    (h : getConfig env m_customFilepath conf = .ok (ret, conf')) :
    ret = .kOk ∧ (∃ settings, Acceptable env m_customFilepath settings) ∨ ret = .kIncomplete := by
  unfold getConfig at h
  rw [load_path] at h
  cases hload : env.load (if m_customFilepath ≠ "" then m_customFilepath else defaultConfigPath) with
  | none =>
      rw [hload] at h
      cases h
      exact Or.inr rfl
  | some json =>
      rw [hload] at h
      cases hparse : env.parse json with
      | error e =>
          simp only [hparse, Except.map] at h
          cases h
      | ok doc =>
          simp only [hparse, Except.map, Except.ok.injEq] at h
          have hret : (parseDocument doc conf).1 = ret := congrArg Prod.fst h
          rcases parseDocument_status doc conf with hok | hincomplete
          · obtain ⟨settings, hsettings⟩ := exists_isConfiguration hok
            exact Or.inl ⟨hret.symm.trans hok, settings, json, doc, hload, hparse, hsettings⟩
          · exact Or.inr (hret.symm.trans hincomplete)

/-- The defaults are not zero, and replace nothing but zeros. -/
theorem defaults_store (settings : Settings) (conf : AppConfig) :
    (settings.store conf).transportConfig.heartbeat ≠ 0 ∧
    (settings.store conf).transportConfig.prefetchCount ≠ 0 ∧
    (conf.transportConfig.heartbeat ≠ 0 →
      (settings.store conf).transportConfig.heartbeat = conf.transportConfig.heartbeat) ∧
    (conf.transportConfig.prefetchCount ≠ 0 →
      (settings.store conf).transportConfig.prefetchCount = conf.transportConfig.prefetchCount) := by
  unfold Settings.store tryDefaultsAmqpTransport
  by_cases hheartbeat : conf.transportConfig.heartbeat = 0
  · by_cases hprefetch : conf.transportConfig.prefetchCount = 0
    · simp [hheartbeat, hprefetch]
    · simp [hheartbeat, hprefetch]
  · by_cases hprefetch : conf.transportConfig.prefetchCount = 0
    · simp [hheartbeat, hprefetch]
    · simp [hheartbeat, hprefetch]

/-- **Configuration loading is total and exact** just for the files it accepts: for every content, every path
and whatever the record held before. Any other file is an exception, or a status without a message. -/
theorem getConfig_total_iff (env : Environment) (m_customFilepath : String) (conf : AppConfig) :
    TotalAndExact env m_customFilepath conf ↔ ∃ settings, Acceptable env m_customFilepath settings := by
  constructor
  · intro h
    obtain ⟨ret, conf', hret⟩ := h.returns
    rcases getConfig_cases hret with ⟨-, hsettings⟩ | rfl
    · exact hsettings
    · exact absurd (h.reportable _ _ hret) (by decide)
  · rintro ⟨settings, hsettings⟩
    have hloaded : getConfig env m_customFilepath conf = .ok (.kOk, settings.store conf) :=
      getConfig_of_acceptable hsettings
    refine ⟨⟨_, _, hloaded⟩, iff_of_true ⟨_, hloaded⟩ ⟨settings, hsettings⟩, ?_, ?_, ?_⟩
    · intro conf' hconf' settings' hsettings'
      rw [getConfig_of_acceptable hsettings'] at hconf'
      exact (congrArg Prod.snd (Except.ok.inj hconf')).symm
    · intro conf' hconf'
      rw [hloaded] at hconf'
      obtain rfl : settings.store conf = conf' := congrArg Prod.snd (Except.ok.inj hconf')
      exact defaults_store settings conf
    · intro ret conf' hconf'
      rw [hloaded] at hconf'
      obtain rfl : ReturnStatus.kOk = ret := congrArg Prod.fst (Except.ok.inj hconf')
      rfl

/-- A file that is not there: the status has no message. A file that is not JSON: no status at all. -/
theorem getConfig_not_total :
    let env : Environment := ⟨fun path => if path = "broken.json" then some [0x7B] else none,
      fun _ => .error .ILL_FORMED⟩
    getConfig env "" {} = .ok (.kIncomplete, {}) ∧ ¬ TotalAndExact env "" {} ∧
      getConfig env "broken.json" {} = .error .ILL_FORMED ∧ ¬ TotalAndExact env "broken.json" {} := by
  have hmissing : getConfig ⟨fun path => if path = "broken.json" then some [0x7B] else none,
      fun _ => .error .ILL_FORMED⟩ "" {} = .ok (.kIncomplete, {}) := by
    simp [getConfig, defaultConfigPath]
  have hbroken : getConfig ⟨fun path => if path = "broken.json" then some [0x7B] else none,
      fun _ => .error .ILL_FORMED⟩ "broken.json" {} = .error .ILL_FORMED := by
    simp [getConfig, Except.map]
  refine ⟨hmissing, fun h => ?_, hbroken, fun h => ?_⟩
  · exact absurd (h.reportable _ _ hmissing) (by decide)
  · obtain ⟨ret, conf', hret⟩ := h.returns
    rw [hbroken] at hret
    cases hret

end LimbWorker.AppConfig
