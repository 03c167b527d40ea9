import BuildScript.Job.Basic
import BuildScript.Tree.Statement

/-!
# Starting services
-/

namespace BuildScript.Services

/-- The names under which some services are installed, where they differ from the usual ones. -/
def installedNames : List (Bytes × Bytes) :=
  [(bytes "hbase", bytes "hbase-master"),
    (bytes "memcache", bytes "memcached"),
    (bytes "neo4j-server", bytes "neo4j"),
    (bytes "rabbitmq", bytes "rabbitmq-server"),
    (bytes "redis", bytes "redis-server")]

/-- The name under which a service is installed. -/
def installedName (service : Bytes) : Bytes := (installedNames.lookup service).getD service

/-- Starts one service. -/
def start (service : Bytes) : Statement :=
  .run (.raw (bytes "sudo service " ++ installedName service ++ bytes " start")) [.echo]

/-- Starts the services of a job in order. -/
def statement (job : Job) : Statement :=
  if job.config.services.isEmpty then .noop else .block (job.config.services.map start)

end BuildScript.Services
