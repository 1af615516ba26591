/-
Module: Intake.Config.Report
Purpose: Configurations in their JSON form, with every field.
Main exports: Config.toJson
-/
import Intake.Config.Basic
import Intake.Json.Basic

namespace Intake

namespace Config

def Identity.toJson (i : Identity) : Json :=
  .ofFields [("id", .string i.id), ("pipeline", .string i.pipeline)]

def Polling.toJson (p : Polling) : Json :=
  .ofFields [
    ("min_interval_secs", .ofDouble p.minSecs),
    ("max_interval_secs", .ofDouble p.maxSecs),
    ("idle_wait_ms", .ofNat p.idleWaitMs)]

def Http.toJson (h : Http) : Json :=
  .ofFields [
    ("bind_address", .string h.bindAddress),
    ("max_concurrent_accepts", .ofNat h.maxConcurrentAccepts),
    ("submit_path", .string h.submitPath),
    ("shutdown_grace_ms", .ofNat h.shutdownGraceMs)]

def Pickup.toJson (p : Pickup) : Json :=
  .ofFields [
    ("key", .string p.key),
    ("directory", .string p.directory),
    ("mode", .string p.mode.name),
    ("min_interval_secs", .ofOption .ofDouble p.minSecs),
    ("max_interval_secs", .ofOption .ofDouble p.maxSecs)]

def toJson (c : Config) : Json :=
  .ofFields [
    ("runtime", c.identity.toJson),
    ("scheduler", c.polling.toJson),
    ("batch", .ofFields [("polling_interval_ms", .ofNat c.batch.pollingIntervalMs)]),
    ("http", .ofOption Http.toJson c.http),
    ("pickup", .array (c.pickups.map Pickup.toJson)),
    ("health", .ofFields [("port", .ofNat c.health.port)])]

end Config

end Intake
