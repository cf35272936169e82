import Libasync.Promise.Advance
import Libasync.AsyncFunc.Blocks
import Libasync.Promise.Confluence
import Libasync.Promise.ErrorTypes
import Libasync.Promise.PassThrough
import Libasync.Promise.Termination
import Libasync.Promise.FirstCall
import Libasync.Promise.VoidLikeUnit
import Libasync.Socket.Order
import Libasync.Socket.WriteError
import Libasync.Reactor.BatchFailure
import Libasync.Reactor.Closing
import Libasync.Reactor.ClosingOrders
import Libasync.Reactor.ConnectPaths
import Libasync.Reactor.Connecting
import Libasync.Reactor.Dispatch
import Libasync.Reactor.Ending
import Libasync.Reactor.Entries
import Libasync.Reactor.FailedConnect
import Libasync.Reactor.Reading
import Libasync.Reactor.Rest
import Libasync.Reactor.Wakeups
import Libasync.TaskLoop.Oneshot
import Libasync.TaskLoop.RunOnce
import Libasync.Thread.Blocking
import Libasync.EventMixin.Snapshot
import Libasync.Generator.Protocol
import Libasync.Generator.YieldFrom
import Libasync.Thread.Loop
import Libasync.Thread.Passes
import Libasync.Thread.RunOnce
import Libasync.Thread.Reentry
import Libasync.Generator.LiveContexts
import Libasync.Generator.Switching
import Libasync.Reactor.Backends
import Libasync.Network.EndToEnd
import Libasync.Promise.Provenance
import Libasync.EventMixin.Arguments
import Libasync.Reactor.Names
import Libasync.Program.Outcomes
