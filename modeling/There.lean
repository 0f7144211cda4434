import There.Effect.WP
import There.Effect.Schedule
import There.Effect.Guarded
import There.Text.Escape
import There.Plan.Basic
import There.Plan.Visitor
import There.Plan.Selection
import There.Plan.Translation
import There.Dispatch.Basic
import There.Dispatch.Coverage
import There.Dispatch.Agreement
import There.Dispatch.Drain
import There.Dispatch.Validation
import There.Dispatch.Stepwise
import There.Concurrent.Runs
import There.Concurrent.Channel
import There.Concurrent.Cache
import There.Concurrent.Isolation
import There.Concurrent.Futures
import There.Text.Lines
import There.Text.Chunks
import There.Posix.Path
import There.Posix.Process
import There.Shell.Lexer
import There.Shell.SimpleCommand
import There.Executor.Log
import There.Executor.Source
import There.Executor.LogChannel
import There.Executor.Tasks
import There.Executor.Text
import There.Executor.Ssh
import There.Executor.Simple
import There.Executor.RemoteOutput
import There.Executor.EnsureAnswers
import There.Executor.Chunking
import There.Executor.Wait
import There.Executor.Overlap
import There.Executor.Failures
import There.Executor.Attribution
import There.Executor.Schedule
import There.Executor.Order
import There.Executor.CommandLine
import There.Executor.Panics
import There.Executor.FileSystem
import There.Executor.CreateDirectory
import There.Executor.TouchFile
import There.Executor.Meaning
import There.Executor.Agreement
import There.Executor.Again
import There.Controller.Client
import There.Controller.Apply
import There.Controller.Reader
import There.Controller.Job
import There.Controller.Server
import There.Controller.Progress
import There.Controller.Retention
import There.Controller.Delivery
import There.Controller.StateMachine
import There.Controller.Bootstrap
import There.Controller.KeyStore
import There.Controller.Course
import There.Controller.Alone
import There.Controller.Isolation
import There.Cli.Apply
import There.Cli.Alone
import There.Cli.Flush
import There.Cli.Run
import There.Cli.Isolation
import There.Dispatch.AllOrNothing
import There.Dispatch.Reported
import There.Agent.Loop
import There.Agent.Trust
import There.Agent.Admission
import There.Json.Value
import There.Json.Parse
import There.Json.Reorder
import There.Json.Derive
import There.Ipc.Codec
import There.Ipc.Wire
import There.Ipc.Refinement
import There.Ipc.Following
import There.Concurrent.Simulation
import There.Ipc.Exchange
import There.Cli.Command
