import NexusGateway.Master

/- The start-up of a worker (`nexus_worker_run` of `worker.c` up to its loop, and
   `nexus_acceptor_listen`).

   A worker takes its address from `[server] listen`, builds its upstream, its limiter and
   its blacklist, and opens its listening socket. It returns an error when there is no
   address, when the address has no colon and when the socket cannot be opened; it is not
   known before the fork whether it will.

   What the system calls return for an address is a parameter. -/
namespace NexusGateway
open CString

/-- `nexus_config_get_int`. -/
def configGetInt (cfg : Config) (sec key : Bytes) (default : Int32) : Int32 :=
  match configGet cfg sec key with
  | none => default
  | some v => atoi v

/-- `parse_listen_addr`: the address and the port. -/
def parseListenAddr (s : Bytes) : Option (CharArray 64 × Int32) :=
  (strrchr s colon).map fun i =>
    (.snprintf size64_pos (s.take i), atoi (s.drop (i + 1)))

/-- What the system calls of `nexus_acceptor_listen` return. -/
structure ListenCalls where
  socket : Int
  bind : Int
  listen : Int

/-- `nexus_acceptor_listen`. -/
def acceptorListen (k : ListenCalls) : Int :=
  if k.socket < 0 then -1
  else if k.bind < 0 then -1
  else if k.listen < 0 then -1
  else k.socket

/-- The host and the port of `[upstream.api] server`. -/
def upstreamAddr (server : Bytes) : Option (Bytes × Int32) :=
  (strrchr server colon).map fun i => (server.take i, atoi (server.drop (i + 1)))

/-- The upstream of a worker: at most one node. -/
def startUpstream (cfg : Config) : Upstream :=
  match (configGet cfg (ascii "upstream.api") (ascii "server")).bind upstreamAddr with
  | none => upstreamInit
  | some addr => (upstreamAddNode upstreamInit addr.1 addr.2 1).1

/-- The blacklist of a worker. -/
def startBlacklist (cfg : Config) : Blacklist :=
  match configGet cfg (ascii "security") (ascii "blacklist") with
  | none => blInit
  | some csv => (strtok csv (ascii ", ")).foldl (fun bl tok => (blAdd bl tok).1) blInit

/-- What a worker has built when it opens its socket. -/
def startWorker (cfg : Config) : Worker where
  cfg := cfg
  upstream := startUpstream cfg
  activeConns := 0
  rl := rlInit (configGetInt cfg (ascii "security") (ascii "rate_limit_per_ip") 100)
  bl := startBlacklist cfg

/-- The start-up: none, if `nexus_worker_run` returns 1. `calls` is what the system calls
    return for an address and a port. -/
def workerStart (calls : Bytes → Int32 → ListenCalls) (cfg : Config) : Option (Worker × Int) :=
  match configGet cfg (ascii "server") (ascii "listen") with
  | none => none
  | some listen =>
    match parseListenAddr listen with
    | none => none
    | some addr =>
      let listenFd := acceptorListen (calls addr.1.text addr.2)
      if listenFd < 0 then none else some (startWorker cfg, listenFd)

example : (parseListenAddr (ascii "0.0.0.0:8080")).map (fun a => (a.1.text, a.2)) =
    some (ascii "0.0.0.0", 8080) := by decide +kernel

end NexusGateway
