import Goat.Config.Basic

/-!
# Reading a configuration

A configuration is read from a document over the default settings. Unknown members
are ignored.
-/

namespace Goat.Config

open Yaml (Node readField)

/-- Reads the section on building. -/
def readBuild (c : Build) (node : Node) : Option Build := do
  let members ← node.readMembers
  return {
    output := ← readField members "output" c.output (Node.readText c.output)
    compress := ← readField members "compress" c.compress (Node.readText c.compress)
    level := ← readField members "level" c.level (Node.readText c.level)
    lineWidth := ← readField members "line_width" c.lineWidth (Node.readInt c.lineWidth)
    stats := ← readField members "stats" c.stats (Node.readBool c.stats) }

/-- Reads the section on running. -/
def readMachine (c : Machine) (node : Node) : Option Machine := do
  let members ← node.readMembers
  return {
    tapeSize := ← readField members "tape_size" c.tapeSize (Node.readInt c.tapeSize)
    endOfInput := ← readField members "eof" c.endOfInput (Node.readText c.endOfInput)
    maxSteps := ← readField members "max_steps" c.maxSteps (Node.readInt c.maxSteps)
    timeout := ← readField members "timeout" c.timeout (Node.readDuration c.timeout) }

/-- Reads the section on watching. -/
def readWatch (c : Watch) (node : Node) : Option Watch := do
  let members ← node.readMembers
  return {
    debounce := ← readField members "debounce" c.debounce (Node.readDuration c.debounce)
    extensions := ← readField members "extensions" c.extensions Node.readTexts
    run := ← readField members "run" c.run (Node.readBool c.run) }

/-- Reads the section on the cache. -/
def readCache (c : Cache) (node : Node) : Option Cache := do
  let members ← node.readMembers
  return {
    enabled := ← readField members "enabled" c.enabled (Node.readBool c.enabled)
    driver := ← readField members "driver" c.driver (Node.readText c.driver)
    source := ← readField members "dsn" c.source (Node.readText c.source)
    maxSize := ← readField members "max_size" c.maxSize (Node.readText c.maxSize) }

/-- Reads the section on logging. -/
def readLogging (c : Logging) (node : Node) : Option Logging := do
  let members ← node.readMembers
  return {
    level := ← readField members "level" c.level (Node.readText c.level)
    output := ← readField members "output" c.output (Node.readText c.output)
    locale := ← readField members "locale" c.locale (Node.readText c.locale)
    quiet := ← readField members "quiet" c.quiet (Node.readBool c.quiet) }

/-- Reads all sections over some settings. -/
def readSections (c : Config) (node : Node) : Option Config := do
  let members ← node.readMembers
  return { c with
    build := ← readField members "build" c.build (readBuild c.build)
    machine := ← readField members "machine" c.machine (readMachine c.machine)
    watch := ← readField members "watch" c.watch (readWatch c.watch)
    cache := ← readField members "cache" c.cache (readCache c.cache)
    logging := ← readField members "logging" c.logging (readLogging c.logging) }

/-- The settings of a document, over the default ones. -/
def ofDocument? (t : Text) : Option Config := (Yaml.document? t).bind (readSections {})

end Goat.Config
