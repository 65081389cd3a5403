import LotterySystem.Config.Proxies
import LotterySystem.Text.Duration

/-!
# Loading the configuration

`Load` of `internal/config/config.go` reads every setting from the environment. What
is missing or cannot be read gives the default; the secret, the addresses of the
stores, the trusted proxies and the size of the connection pool are checked. The
check of the pool is on 64-bit numbers and the result has 32-bit ones, so the last
part says which sizes survive.
-/

namespace LotterySystem.Config

open Text Http

/-- `os.Getenv`: a variable that is not set is empty. -/
abbrev Environment := String → List Char

/-- The options of the client that the configuration sets. -/
structure RedisOptions where
  addr : List Char
  password : List Char
  db : Int
  poolSize : Int
  minIdleConns : Int

/-- `strings.ToLower`, character by character, and `redis.ParseURL`. -/
structure Libraries where
  toLower : Char → Char
  parseURL : List Char → Except String RedisOptions

inductive LoadError
  | required (key : String)
  | shortSecret (length : Nat)
  | redisURL (err : String)
  | trustedProxies (list : List Char)
  | poolBounds (minConns maxConns : Int)

/-- The message; that of `netip` depends on the list of proxies. -/
def LoadError.text (netip : List Char → String) : LoadError → String
  | .required key => key ++ " is required"
  | .shortSecret length =>
      "JWT_SECRET must be at least 32 characters (got " ++ toString length ++ ")"
  | .redisURL err => "REDIS_URL invalid: " ++ err
  | .trustedProxies list => "TRUSTED_PROXIES: " ++ netip list
  | .poolBounds minConns maxConns =>
      "DB_MIN_CONNS (" ++ toString minConns ++ ") and DB_MAX_CONNS (" ++ toString maxConns ++
        ") must satisfy 0 <= min <= max, max >= 1"

set_option linter.dupNamespace false in
/-- Durations are in nanoseconds. -/
structure Config where
  env : List Char
  port : List Char
  readTimeout : Int
  writeTimeout : Int
  idleTimeout : Int
  shutdownTimeout : Int
  maxRequestBytes : Int
  databaseURL : List Char
  migrationDatabaseURL : List Char
  migrateOnStart : Bool
  dbMaxConns : Int32
  dbMinConns : Int32
  redisOptions : RedisOptions
  jwtSecret : List Char
  jwtExpiry : Int
  lockTTL : Int
  lockWait : Int
  maxWinners : Int
  authLimitRequests : Int
  authLimitWindow : Int
  accountLimitRequests : Int
  accountLimitWindow : Int
  apiLimitRequests : Int
  apiLimitWindow : Int
  trustedProxies : List Prefix
  corsAllowedOrigins : List (List Char)
  bootstrapAdminEmail : List Char
  bootstrapAdminPassword : List Char
  bootstrapAdminName : List Char

def second : Int := 10 ^ 9

def minute : Int := 60 * second

def hour : Int := 60 * minute

section Settings

variable (env : Environment) (key : String)

def getEnv (fallback : List Char) : List Char :=
  if env key ≠ [] then env key else fallback

def getInt (fallback : Int) : Int :=
  if env key = [] then fallback
  else
    match atoi (env key) with
    | (n, none) => n
    | (_, some _) => fallback

def getBool (toLower : Char → Char) (fallback : Bool) : Bool :=
  let v := String.ofList ((trimSpace (env key)).map toLower)
  if v ∈ ["1", "true", "yes", "on"] then true
  else if v ∈ ["0", "false", "no", "off"] then false
  else fallback

def getDuration (fallback : Int) : Int :=
  if env key = [] then fallback else (parseDuration (env key)).getD fallback

end Settings

def applyRedisPoolDefaults (o : RedisOptions) : RedisOptions where
  addr := o.addr
  password := o.password
  db := o.db
  poolSize := if o.poolSize = 0 then 20 else o.poolSize
  minIdleConns := if o.minIdleConns = 0 then 5 else o.minIdleConns

section Load

variable (lib : Libraries) (env : Environment)

/-- The secret has at least 32 bytes. -/
def loadJWTSecret : Except LoadError (List Char) :=
  let jwtSecret := trimSpace (env "JWT_SECRET")
  let length := (String.ofList jwtSecret).utf8ByteSize
  if jwtSecret = [] then .error (.required "JWT_SECRET")
  else if length < 32 then .error (.shortSecret length)
  else .ok jwtSecret

def loadDatabaseURL : Except LoadError (List Char) :=
  let dbURL := trimSpace (env "DATABASE_URL")
  if dbURL = [] then .error (.required "DATABASE_URL") else .ok dbURL

/-- An address of the form `redis://` is preferred. -/
def loadRedisOptions : Except LoadError RedisOptions :=
  let url := trimSpace (env "REDIS_URL")
  if url ≠ [] then
    match lib.parseURL url with
    | .error err => .error (.redisURL err)
    | .ok opts => .ok (applyRedisPoolDefaults opts)
  else
    .ok (applyRedisPoolDefaults
      { addr := getEnv env "REDIS_ADDR" "localhost:6379".toList
        password := env "REDIS_PASSWORD"
        db := getInt env "REDIS_DB" 0
        poolSize := 0
        minIdleConns := 0 })

def loadTrustedProxies : Except LoadError (List Prefix) :=
  let list := getEnv env "TRUSTED_PROXIES" []
  match parsePrefixes list with
  | none => .error (.trustedProxies list)
  | some ps => .ok ps

def maxConns : Int := getInt env "DB_MAX_CONNS" 25

def minConns : Int := getInt env "DB_MIN_CONNS" 5

def checkPool : Except LoadError Unit :=
  if maxConns env < 1 ∨ minConns env < 0 ∨ minConns env > maxConns env then
    .error (.poolBounds (minConns env) (maxConns env))
  else .ok ()

/-- The record that is built at the end. -/
def config (jwtSecret dbURL : List Char) (redisOpts : RedisOptions) (proxies : List Prefix) :
    Config where
  env := getEnv env "ENV" "development".toList
  port := getEnv env "PORT" "8080".toList
  readTimeout := getDuration env "READ_TIMEOUT" (10 * second)
  writeTimeout := getDuration env "WRITE_TIMEOUT" (30 * second)
  idleTimeout := getDuration env "IDLE_TIMEOUT" (120 * second)
  shutdownTimeout := getDuration env "SHUTDOWN_TIMEOUT" (30 * second)
  maxRequestBytes := getInt env "MAX_REQUEST_BYTES" (2 ^ 20)
  databaseURL := dbURL
  migrationDatabaseURL := trimSpace (env "MIGRATION_DATABASE_URL")
  migrateOnStart := getBool env "MIGRATE_ON_START" lib.toLower true
  -- a conversion keeps the low 32 bits
  dbMaxConns := Int32.ofInt (maxConns env)
  dbMinConns := Int32.ofInt (minConns env)
  redisOptions := redisOpts
  jwtSecret := jwtSecret
  jwtExpiry := getDuration env "JWT_EXPIRY" (24 * hour)
  lockTTL := getDuration env "LOCK_TTL" (5 * second)
  lockWait := getDuration env "LOCK_WAIT_TIMEOUT" (10 * second)
  maxWinners := getInt env "MAX_WINNERS" 100
  authLimitRequests := getInt env "AUTH_RATE_LIMIT_REQUESTS" 10
  authLimitWindow := getDuration env "AUTH_RATE_LIMIT_WINDOW" (1 * minute)
  accountLimitRequests := getInt env "AUTH_ACCOUNT_RATE_LIMIT_REQUESTS" 10
  accountLimitWindow := getDuration env "AUTH_ACCOUNT_RATE_LIMIT_WINDOW" (15 * minute)
  apiLimitRequests := getInt env "API_RATE_LIMIT_REQUESTS" 100
  apiLimitWindow := getDuration env "API_RATE_LIMIT_WINDOW" (1 * minute)
  trustedProxies := proxies
  corsAllowedOrigins := splitCSV (getEnv env "CORS_ALLOWED_ORIGINS" [])
  bootstrapAdminEmail := trimSpace (env "BOOTSTRAP_ADMIN_EMAIL")
  bootstrapAdminPassword := env "BOOTSTRAP_ADMIN_PASSWORD"
  bootstrapAdminName := getEnv env "BOOTSTRAP_ADMIN_NAME" "System Admin".toList

def load : Except LoadError Config := do
  let jwtSecret ← loadJWTSecret env
  let dbURL ← loadDatabaseURL env
  let redisOpts ← loadRedisOptions lib env
  let trustedProxies ← loadTrustedProxies env
  checkPool env
  return config lib env jwtSecret dbURL redisOpts trustedProxies

end Load

theorem bind_eq_ok_iff {ε α β : Type} {x : Except ε α} {f : α → Except ε β} {b : β} :
    x >>= f = .ok b ↔ ∃ a, x = .ok a ∧ f a = .ok b := by
  cases x with
  | error e => simp [bind, Except.bind]
  | ok a => simp [bind, Except.bind]

/-- What a successful load has read and checked. -/
theorem load_eq_ok_iff {lib : Libraries} {env : Environment} {cfg : Config} :
    load lib env = .ok cfg ↔
      ∃ jwtSecret dbURL redisOpts proxies, loadJWTSecret env = .ok jwtSecret ∧
        loadDatabaseURL env = .ok dbURL ∧ loadRedisOptions lib env = .ok redisOpts ∧
        loadTrustedProxies env = .ok proxies ∧ checkPool env = .ok () ∧
        config lib env jwtSecret dbURL redisOpts proxies = cfg := by
  simp only [load, bind_eq_ok_iff]
  constructor
  · rintro ⟨jwtSecret, hsecret, dbURL, hdb, redisOpts, hredis, proxies, hproxies, _, hcheck, hend⟩
    exact ⟨jwtSecret, dbURL, redisOpts, proxies, hsecret, hdb, hredis, hproxies, hcheck,
      Except.ok.inj hend⟩
  · rintro ⟨jwtSecret, dbURL, redisOpts, proxies, hsecret, hdb, hredis, hproxies, hcheck, rfl⟩
    exact ⟨jwtSecret, hsecret, dbURL, hdb, redisOpts, hredis, proxies, hproxies, (), hcheck, rfl⟩

/-! ## Numbers of 64 bits -/

/-- An `int` or a `time.Duration`. -/
def Fits (n : Int) : Prop := -2 ^ 63 ≤ n ∧ n < 2 ^ 63

instance : DecidablePred Fits := fun n => inferInstanceAs (Decidable (-2 ^ 63 ≤ n ∧ n < 2 ^ 63))

/-- The settings of that size. -/
def numbers (cfg : Config) : List Int :=
  [cfg.readTimeout, cfg.writeTimeout, cfg.idleTimeout, cfg.shutdownTimeout, cfg.maxRequestBytes,
    cfg.jwtExpiry, cfg.lockTTL, cfg.lockWait, cfg.maxWinners, cfg.authLimitRequests,
    cfg.authLimitWindow, cfg.accountLimitRequests, cfg.accountLimitWindow, cfg.apiLimitRequests,
    cfg.apiLimitWindow]

section Fits

variable {lib : Libraries} {env : Environment} {cfg : Config} {key : String} {fallback : Int}

theorem fits_getInt (h : Fits fallback) : Fits (getInt env key fallback) := by
  rw [getInt]
  split
  · exact h
  · have hbounds := atoi_bounds (env key)
    split
    · rename_i n hn
      rw [hn] at hbounds
      exact hbounds
    · exact h

theorem fits_getDuration (h : Fits fallback) : Fits (getDuration env key fallback) := by
  rw [getDuration]
  split
  · exact h
  · cases hparse : parseDuration (env key) with
    | none => exact h
    | some n => exact parseDuration_bounds hparse

/-- Every default fits, and so does what is read instead of it. -/
theorem fits_of_mem_numbers (h : load lib env = .ok cfg) : ∀ n ∈ numbers cfg, Fits n := by
  obtain ⟨_, _, _, _, _, _, _, _, _, rfl⟩ := load_eq_ok_iff.mp h
  simp only [numbers, List.forall_mem_cons, List.not_mem_nil, false_imp_iff, implies_true, and_true]
  refine ⟨?_, ?_, ?_, ?_, ?_, ?_, ?_, ?_, ?_, ?_, ?_, ?_, ?_, ?_, ?_⟩
  all_goals first
    | exact fits_getInt (by decide)
    | exact fits_getDuration (by decide)

end Fits

/-! ## The size of the pool -/

/-- What the check of the pool asks for, of the numbers that the pool is given. -/
structure PoolBounds (cfg : Config) : Prop where
  min_nonneg : 0 ≤ cfg.dbMinConns.toInt
  min_le_max : cfg.dbMinConns.toInt ≤ cfg.dbMaxConns.toInt
  max_pos : 1 ≤ cfg.dbMaxConns.toInt

section Bounds

variable {lib : Libraries} {env : Environment} {cfg : Config}

theorem checkPool_eq_ok_iff : checkPool env = .ok () ↔
    1 ≤ maxConns env ∧ 0 ≤ minConns env ∧ minConns env ≤ maxConns env := by
  rw [checkPool]
  split
  · rename_i hbad
    simp only [reduceCtorEq, false_iff]
    omega
  · rename_i hgood
    simp only [true_iff]
    omega

/-- The low 32 bits of a number, read as a signed one. -/
theorem toInt_ofInt_eq (n : Int) :
    (Int32.ofInt n).toInt = if n % 2 ^ 32 < 2 ^ 31 then n % 2 ^ 32 else n % 2 ^ 32 - 2 ^ 32 := by
  rw [Int32.toInt_ofInt, Int.bmod_def]
  rfl

theorem poolBounds_iff_low_bits (h : load lib env = .ok cfg) :
    PoolBounds cfg ↔
      1 ≤ maxConns env % 2 ^ 32 ∧ maxConns env % 2 ^ 32 < 2 ^ 31 ∧
        minConns env % 2 ^ 32 ≤ maxConns env % 2 ^ 32 := by
  obtain ⟨_, _, _, _, _, _, _, _, _, rfl⟩ := load_eq_ok_iff.mp h
  have hmax := toInt_ofInt_eq (maxConns env)
  have hmin := toInt_ofInt_eq (minConns env)
  constructor
  · rintro ⟨hnonneg, hle, hpos⟩
    simp only [config] at hnonneg hle hpos
    split at hmax <;> split at hmin <;> omega
  · rintro ⟨hpos, hlt, hle⟩
    rw [if_pos hlt] at hmax
    rw [if_pos (hle.trans_lt hlt)] at hmin
    constructor <;> simp only [config] <;> omega

/-- A pool that can have up to `2 ^ 31 - 1` connections keeps its bounds. From there on nothing but
the low 32 bits of the two sizes decides. -/
theorem pool_bounds_iff (h : load lib env = .ok cfg) :
    PoolBounds cfg ↔
      maxConns env < 2 ^ 31 ∨
        (1 ≤ maxConns env % 2 ^ 32 ∧ maxConns env % 2 ^ 32 < 2 ^ 31 ∧
          minConns env % 2 ^ 32 ≤ maxConns env % 2 ^ 32) := by
  obtain ⟨_, _, _, _, _, _, _, _, hcheck, _⟩ := load_eq_ok_iff.mp h
  obtain ⟨hpos, hnonneg, hle⟩ := checkPool_eq_ok_iff.mp hcheck
  rw [poolBounds_iff_low_bits h]
  constructor
  · exact Or.inr
  · rintro (hsmall | hlow)
    · rw [Int.emod_eq_of_lt (by omega) (by omega), Int.emod_eq_of_lt hnonneg (by omega)]
      exact ⟨hpos, hsmall, hle⟩
    · exact hlow

end Bounds

/-- What is required, and a size for the pool. -/
def sampleEnvironment (maxConns : List Char) : Environment
  | "JWT_SECRET" => "0123456789abcdef0123456789abcdef".toList
  | "DATABASE_URL" => "postgres://localhost/lottery".toList
  | "DB_MAX_CONNS" => maxConns
  | _ => []

def sampleLibraries : Libraries where
  toLower := Char.toLower
  parseURL _ := .error "redis: invalid URL scheme: "

theorem exists_load_sample {m : List Char} (h : checkPool (sampleEnvironment m) = .ok ()) :
    ∃ cfg, load sampleLibraries (sampleEnvironment m) = .ok cfg := by
  have hsecret : loadJWTSecret (sampleEnvironment m) =
      .ok "0123456789abcdef0123456789abcdef".toList := by rfl
  have hdb : loadDatabaseURL (sampleEnvironment m) = .ok "postgres://localhost/lottery".toList := by
    rfl
  have hredis : loadRedisOptions sampleLibraries (sampleEnvironment m) =
      .ok ⟨"localhost:6379".toList, [], 0, 20, 5⟩ := by rfl
  have hproxies : loadTrustedProxies (sampleEnvironment m) = .ok [] := by rfl
  exact ⟨_, load_eq_ok_iff.mpr ⟨_, _, _, _, hsecret, hdb, hredis, hproxies, h, rfl⟩⟩

theorem pool_bounds_iff_sample :
    ∃ cfg, load sampleLibraries (sampleEnvironment "50".toList) = .ok cfg ∧ PoolBounds cfg := by
  obtain ⟨cfg, hload⟩ := exists_load_sample (m := "50".toList)
    (checkPool_eq_ok_iff.mpr (by decide +kernel))
  exact ⟨cfg, hload, (pool_bounds_iff hload).mpr (Or.inl (by decide +kernel))⟩

/-- With `DB_MAX_CONNS=4294967296` the pool may have no connection at all. -/
theorem large_pool_is_empty : ¬ ∀ (lib : Libraries) (env : Environment) (cfg : Config),
    load lib env = .ok cfg → PoolBounds cfg := by
  intro hall
  obtain ⟨cfg, hload⟩ := exists_load_sample (m := "4294967296".toList)
    (checkPool_eq_ok_iff.mpr (by decide +kernel))
  have hlow := (poolBounds_iff_low_bits hload).mp (hall _ _ cfg hload)
  exact absurd hlow.1 (by decide +kernel)

end LotterySystem.Config
