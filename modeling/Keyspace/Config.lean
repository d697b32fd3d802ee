import Keyspace.Document.Form
import Keyspace.Text.Quoted
import Keyspace.Toml.Reading

namespace Keyspace

namespace Config

structure Connection where
  endpoint : String := "http://127.0.0.1:2379"
  /-- The token that is sent with every request. -/
  authToken : Option String := none
  connectTimeoutMs : UInt64 := 5000
  requestTimeoutMs : UInt64 := 30000
  deriving DecidableEq, Inhabited, Repr

structure Callbacks where
  threadPrefix : String := "etcd-callback"
  deriving DecidableEq, Inhabited, Repr

structure Snapshots where
  /-- The most bytes of one piece of a snapshot. -/
  chunkSize : UInt64 := 32768
  deriving DecidableEq, Inhabited, Repr

structure Telemetry where
  logLevel : String := "info"
  deriving DecidableEq, Inhabited, Repr

end Config

structure Config where
  connection : Config.Connection := {}
  callbacks : Config.Callbacks := {}
  snapshot : Config.Snapshots := {}
  telemetry : Config.Telemetry := {}
  deriving DecidableEq, Inhabited, Repr

namespace Config

def Connection.form : Form Connection :=
  .record {} [
    .of "endpoint" .text ⟨endpoint, fun a v => { v with endpoint := a }⟩ .never,
    .of "auth_token" Form.text.option ⟨authToken, fun a v => { v with authToken := a }⟩ .never,
    .of "connect_timeout_ms" .uint64
      ⟨connectTimeoutMs, fun a v => { v with connectTimeoutMs := a }⟩ .never,
    .of "request_timeout_ms" .uint64
      ⟨requestTimeoutMs, fun a v => { v with requestTimeoutMs := a }⟩ .never]

def Callbacks.form : Form Callbacks :=
  .record {} [
    .of "thread_prefix" .text ⟨threadPrefix, fun a v => { v with threadPrefix := a }⟩ .never]

def Snapshots.form : Form Snapshots :=
  .record {} [.of "chunk_size" .uint64 ⟨chunkSize, fun a v => { v with chunkSize := a }⟩ .never]

def Telemetry.form : Form Telemetry :=
  .record {} [.of "log_level" .text ⟨logLevel, fun a v => { v with logLevel := a }⟩ .never]

def form : Form Config :=
  .record {} [
    .of "connection" Connection.form ⟨connection, fun a v => { v with connection := a }⟩ .never,
    .of "callbacks" Callbacks.form ⟨callbacks, fun a v => { v with callbacks := a }⟩ .never,
    .of "snapshot" Snapshots.form ⟨snapshot, fun a v => { v with snapshot := a }⟩ .never,
    .of "telemetry" Telemetry.form ⟨telemetry, fun a v => { v with telemetry := a }⟩ .never]

inductive Fault
  | endpoint (given : String)
  | connectTimeout
  | requestTimeout
  | authToken
  | threadPrefix
  | chunkSize
  | logLevel (given : String)
  deriving DecidableEq, Inhabited, Repr

def logLevels : List String :=
  ["trace", "debug", "info", "warn", "error"]

def Fault.message : Fault → String
  | endpoint given =>
      "connection.endpoint must start with http:// or https://, got: " ++ given
  | connectTimeout => "connection.connect_timeout_ms must be > 0"
  | requestTimeout => "connection.request_timeout_ms must be > 0"
  | authToken => "connection.auth_token must not be empty when set"
  | threadPrefix => "callbacks.thread_prefix must not be empty"
  | chunkSize => "snapshot.chunk_size must be > 0"
  | logLevel given =>
      "telemetry.log_level must be one of " ++ Text.shownList (logLevels.map Text.quote)
        ++ ", got: " ++ given

/-- All that is wrong, in the order in which it is looked for. -/
def faults (c : Config) : List Fault :=
  let endpoint := c.connection.endpoint
  let at? (bad : Bool) (fault : Fault) : List Fault := if bad then [fault] else []
  at? (!"http://".isPrefixOf endpoint && !"https://".isPrefixOf endpoint) (.endpoint endpoint)
    ++ at? (c.connection.connectTimeoutMs = 0) .connectTimeout
    ++ at? (c.connection.requestTimeoutMs = 0) .requestTimeout
    ++ at? (c.connection.authToken = some "") .authToken
    ++ at? (c.callbacks.threadPrefix = "") .threadPrefix
    ++ at? (c.snapshot.chunkSize = 0) .chunkSize
    ++ at? (!logLevels.contains c.telemetry.logLevel) (.logLevel c.telemetry.logLevel)

def fault? (c : Config) : Option Fault :=
  c.faults.head?

inductive Error
  /-- The file is not there, or is not text. -/
  | unreadable (path : String)
  /-- The text is not well formed, or a value in it is of the wrong type. -/
  | malformed
  | unsound (fault : Fault)
  | inFile (path : String) (cause : Error)
  deriving DecidableEq, Inhabited, Repr

namespace Error

def messages : Error → List String
  | unreadable path => ["failed to read config file: " ++ path]
  | malformed => ["failed to parse config"]
  | unsound fault => [fault.message]
  | inFile path cause => ("invalid config file: " ++ path) :: cause.messages

def root : Error → Error
  | inFile _ cause => cause.root
  | error => error

end Error

def ofText (text : String) : Except Error Config :=
  match (Toml.read? text).bind (form.read? .ignored) with
  | none => .error .malformed
  | some c =>
      match c.fault? with
      | some fault => .error (.unsound fault)
      | none => .ok c

/-- The configuration in a file with the given content, if there is such a file. -/
def ofFile (path : String) (content : Option Bytes) : Except Error Config :=
  match content.bind Bytes.text? with
  | none => .error (.unreadable path)
  | some text =>
      match ofText text with
      | .ok c => .ok c
      | .error e => .error (.inFile path e)

/-- Entries to be used in place of those that were read. -/
structure Overrides where
  endpoint : Option String := none
  authToken : Option String := none
  logLevel : Option String := none
  requestTimeoutMs : Option UInt64 := none
  deriving DecidableEq, Inhabited, Repr

def override (c : Config) (o : Overrides) : Config :=
  { c with
    connection := { c.connection with
      endpoint := o.endpoint.getD c.connection.endpoint
      authToken := o.authToken.or c.connection.authToken
      requestTimeoutMs := o.requestTimeoutMs.getD c.connection.requestTimeoutMs }
    telemetry := { c.telemetry with logLevel := o.logLevel.getD c.telemetry.logLevel } }

/-- The name of the thread on which the callbacks of a client for the given resource run. -/
def threadName (c : Config) (resource : String) : String :=
  c.callbacks.threadPrefix ++ "-" ++ resource

def duration (ms : UInt64) : Nat × Nat :=
  (ms.toNat / 1000, ms.toNat % 1000 * 1000000)

end Config

end Keyspace
