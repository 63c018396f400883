import Pire2Pire.Library.CString

/-! The preferences that are numbers (`conf.c`). -/
namespace Pire2Pire

open Library

structure Prefs where
  clientPort : Int32
  daemonPort : Int32
  nbProc : Int32
  maxClients : Int32
  maxDaemons : Int32
  maxRequestsPerClient : Int32
  maxRequestsPerDaemon : Int32
deriving DecidableEq, Repr

def minPort : Int32 := 1024

namespace Prefs

def default : Prefs := ⟨1337, 7331, 2, 3, 10, 10, 10⟩

/-- `num_val = atoi (value); if (num_val > least) field = num_val;` -/
def numVal (least : Int32) (value : CString) (field : Int32) : Int32 :=
  if least < atoi value then atoi value else field

/-- One line `key = value` of the file. The keys with text values are not kept here. -/
def set (prefs : Prefs) (key value : CString) : Prefs :=
  if key = "client_port".toList then { prefs with clientPort := numVal minPort value prefs.clientPort }
  else if key = "daemon_port".toList then { prefs with daemonPort := numVal minPort value prefs.daemonPort }
  else if key = "nb_proc".toList then { prefs with nbProc := numVal 1 value prefs.nbProc }
  else if key = "max_clients".toList then { prefs with maxClients := numVal 1 value prefs.maxClients }
  else if key = "max_daemons".toList then { prefs with maxDaemons := numVal 1 value prefs.maxDaemons }
  else if key = "max_requests_per_client".toList then
    { prefs with maxRequestsPerClient := numVal 1 value prefs.maxRequestsPerClient }
  else if key = "max_requests_per_daemon".toList then
    { prefs with maxRequestsPerDaemon := numVal 1 value prefs.maxRequestsPerDaemon }
  else prefs

/-- What the source checks of the numbers; there is no upper bound on a port. -/
structure Checked (prefs : Prefs) : Prop where
  clientPort : minPort < prefs.clientPort
  daemonPort : minPort < prefs.daemonPort
  nbProc : 1 < prefs.nbProc
  maxClients : 1 < prefs.maxClients
  maxDaemons : 1 < prefs.maxDaemons
  maxRequestsPerClient : 1 < prefs.maxRequestsPerClient
  maxRequestsPerDaemon : 1 < prefs.maxRequestsPerDaemon

end Prefs

/-- `conf_retrieve`, with the pairs that `fscanf` reads. A file that cannot be opened is one without lines. -/
def confRetrieve (lines : List (CString × CString)) : Prefs :=
  lines.foldl (fun prefs line => prefs.set line.1 line.2) Prefs.default

theorem numVal_gt {least field : Int32} (kept : least < field) (value : CString) :
    least < Prefs.numVal least value field := by
  unfold Prefs.numVal
  split
  · assumption
  · exact kept

theorem checked_set {prefs : Prefs} (checked : prefs.Checked) (key value : CString) :
    (prefs.set key value).Checked := by
  -- one branch for each key; a line with another key changes nothing
  unfold Prefs.set
  split
  · exact { checked with clientPort := numVal_gt checked.clientPort value }
  split
  · exact { checked with daemonPort := numVal_gt checked.daemonPort value }
  split
  · exact { checked with nbProc := numVal_gt checked.nbProc value }
  split
  · exact { checked with maxClients := numVal_gt checked.maxClients value }
  split
  · exact { checked with maxDaemons := numVal_gt checked.maxDaemons value }
  split
  · exact { checked with maxRequestsPerClient := numVal_gt checked.maxRequestsPerClient value }
  split
  · exact { checked with maxRequestsPerDaemon := numVal_gt checked.maxRequestsPerDaemon value }
  · exact checked

theorem confRetrieve_checked (lines : List (CString × CString)) : (confRetrieve lines).Checked := by
  -- the defaults pass their own checks
  have start : Prefs.default.Checked := by
    constructor <;> decide
  unfold confRetrieve
  -- induction on the lines, from any values that have passed
  generalize Prefs.default = prefs at start
  induction lines generalizing prefs with
  | nil => exact start
  | cons line lines ih => exact ih _ (checked_set start line.1 line.2)

/-! ### The limits of the two kinds of peers -/

inductive PeerKind where
  | client
  | daemon
deriving DecidableEq, Repr

namespace PeerKind

def maxRequests (prefs : Prefs) : PeerKind → Int
  | .client => prefs.maxRequestsPerClient.toInt
  | .daemon => prefs.maxRequestsPerDaemon.toInt

def maxPeers (prefs : Prefs) : PeerKind → Int
  | .client => prefs.maxClients.toInt
  | .daemon => prefs.maxDaemons.toInt

end PeerKind

theorem maxRequests_gt (lines : List (CString × CString)) (kind : PeerKind) :
    1 < kind.maxRequests (confRetrieve lines) := by
  have checked := confRetrieve_checked lines
  cases kind with
  | client => exact Int32.lt_iff_toInt_lt.mp checked.maxRequestsPerClient
  | daemon => exact Int32.lt_iff_toInt_lt.mp checked.maxRequestsPerDaemon

theorem maxPeers_gt (lines : List (CString × CString)) (kind : PeerKind) :
    1 < kind.maxPeers (confRetrieve lines) := by
  have checked := confRetrieve_checked lines
  cases kind with
  | client => exact Int32.lt_iff_toInt_lt.mp checked.maxClients
  | daemon => exact Int32.lt_iff_toInt_lt.mp checked.maxDaemons

end Pire2Pire
