namespace Adjudication.Limits

def protocolVersion : String := "0.1.0"
def wireVersion : Nat := 1

/-- The greatest phase that a message can carry. -/
def maxPhase : Nat := UInt32.size - 1

def initialCollection : Nat := 30000
def followupCollection : Nat := 6000
def grace : Nat := 2000
def settle : Nat := 1000
def finalizeTimeout : Nat := 6000
def catchUp : Nat := 5000
def roundPoll : Nat := 20

def gossipBatch : Nat := 10
def gossipTimeout : Nat := 1000

def retryDelay : Nat := 500
def idleDelay : Nat := 100

def heartbeatInterval : Nat := 1000
def heartbeatTimeout : Nat := 1000
def heartbeatPoll : Nat := 100
def freshness : Nat := 2000

def maxSkew : Nat := 30000
def replayCapacity : Nat := 16384

def cacheCapacity : Nat := 100
def maxEntryBytes : Nat := 64 * 1024
def maxMissing : Nat := 256
def maxFrameBytes : Nat := 256 * 1024
def maxPeers : Nat := 128

def apiPort : Nat := 9841
def metricsPort : Nat := 9842

end Adjudication.Limits
