import FileTransfer.Foundation.Fallible
import FileTransfer.Posix.CommandLine
import FileTransfer.Server.FileApi

/-! # `server_args.c`

The command line of the server, and what becomes of its session timeout.
-/

namespace FileTransfer

open Foundation Posix

def minPort : Int := 1025
def maxPort : Int := 0xFFFF
def defaultPort : UInt32 := 31337
def defaultTimeout : UInt8 := 60
def maxTimeout : Int := 300

structure Args where
  port : UInt32 := defaultPort
  timeout : UInt8 := defaultTimeout
  homeDirectory : Option VerifiedPath := none
deriving DecidableEq

def strToLong (strNum : CString) : Option Int :=
  let converted := strtol strNum
  if converted.outOfRange then none
  else if converted.endptr = 0 then none
  else if converted.endptr ≠ strNum.length then none
  else some converted.value

/-- The cast to eight bits comes after the comparison with a larger limit. -/
def getTimeout (timeout : CString) : UInt8 :=
  match strToLong timeout with
  | none => 0
  | some converted =>
      if converted > maxTimeout then 0
      else if converted < 1 then 0
      else UInt8.ofNat converted.toNat

def getPort (port : CString) : UInt32 :=
  match strToLong port with
  | none => 0
  | some converted =>
      if converted > maxPort ∨ converted < minPort then 0
      else UInt32.ofNat converted.toNat

/-- `readWrite` tells whether the mode of the directory has the two bits that are tested. -/
def getHomeDir (readWrite : Bytes → Bool) (tree : FileTree) (homeDir : CString) :
    Except Fault (Option VerifiedPath) :=
  match tree.stat (fun _ => 0) homeDir.bytes with
  | .error _ => .ok none
  | .ok stat =>
      if stat.kind ≠ .directory then .ok none
      else if readWrite homeDir.bytes = false then .ok none
      else fSetHomeDir tree homeDir.bytes homeDir.length

/-! ## The loop over the options -/

structure Parsing where
  args : Args := {}
  bPort : Bool := false
  bTimeout : Bool := false
  bHomeDir : Bool := false

def optstring : Bytes := ascii "p:t:d:h"

def optPort : UInt8 := 112
def optTimeout : UInt8 := 116
def optHomeDir : UInt8 := 100

/-- One round: `none` leaves for the cleanup. `-h` does too. -/
def argsStep (readWrite : Bytes → Bool) (tree : FileTree) (parsing : Parsing) :
    Opt → Except Fault (Option Parsing)
  | .flag _ => .ok none
  | .unknown _ => .ok none
  | .withArg name optarg =>
      if name = optPort then
        if parsing.bPort then .ok none
        else if getPort optarg = 0 then .ok none
        else .ok (some { parsing with
          args := { parsing.args with port := getPort optarg }, bPort := true })
      else if name = optTimeout then
        if parsing.bTimeout then .ok none
        else if getTimeout optarg = 0 then .ok none
        else .ok (some { parsing with
          args := { parsing.args with timeout := getTimeout optarg }, bTimeout := true })
      else if name = optHomeDir then
        if parsing.bHomeDir then .ok none
        else do
          match ← getHomeDir readWrite tree optarg with
          | none => return none
          | some homeDirectory => return some { parsing with
              args := { parsing.args with homeDirectory := some homeDirectory }, bHomeDir := true }
      else .ok (some parsing)

def argsLoop (readWrite : Bytes → Bool) (tree : FileTree) (parsing : Parsing) :
    List Opt → Except Fault (Option Parsing)
  | [] => .ok (some parsing)
  | opt :: opts => do
      match ← argsStep readWrite tree parsing opt with
      | none => return none
      | some parsing => argsLoop readWrite tree parsing opts

def argsParse (readWrite : Bytes → Bool) (tree : FileTree) (argv : List CString) :
    Except Fault (Option Args) :=
  if argv.length = 1 then .ok none
  else do
    let line := getopt optstring argv
    match ← argsLoop readWrite tree {} line.opts with
    | none => return none
    | some parsing =>
        if line.operands ≠ [] then return none
        else if parsing.args.homeDirectory = none then return none
        else return some parsing.args

def plainArgv : List CString :=
  [ascii "server", ascii "-d", ascii "/", ascii "-t8", ascii "-p", ascii "4000"].map
    CString.ofBuffer

example : argsParse (fun _ => true) FileTree.bare plainArgv =
    .ok (some { port := 4000, timeout := 8, homeDirectory := some ⟨ascii "/"⟩ }) := by
  decide +kernel

/-! ## What the workers get -/

structure WorkerPayload where
  fd : Nat
  sessionId : UInt32 := 0
  timeout : Int

def startServer (timeout : UInt8) (accepted : List (Option Nat)) : List WorkerPayload :=
  accepted.filterMap fun clientFd => clientFd.map fun fd => { fd, timeout := timeout.toNat }

end FileTransfer
