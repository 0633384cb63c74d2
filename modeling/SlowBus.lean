import SlowBus.Interlock.Ownership
import SlowBus.Interlock.Grace
import SlowBus.Interlock.Builtin
import SlowBus.Interlock.Rollback
import SlowBus.Interlock.Rebuild
import SlowBus.Interlock.Status
import SlowBus.Interlock.DeadBand
import SlowBus.Interlock.Conjunction
import SlowBus.Interlock.Positions
import SlowBus.Interlock.AsWritten
import SlowBus.Arbiter.Probing
import SlowBus.Arbiter.TableSync
import SlowBus.Arbiter.PollTargets
import SlowBus.Arbiter.Sweep
import SlowBus.Arbiter.HalfDuplex
import SlowBus.Arbiter.Leaks
import SlowBus.Bus.Burst
import SlowBus.Bus.Segments
import SlowBus.Bus.RxRing
import SlowBus.Bus.Outbound
import SlowBus.Bus.Roster
import SlowBus.Bus.Sched
import SlowBus.Arbiter.Edges
import SlowBus.Host.Roster
import SlowBus.Host.Link
import SlowBus.Host.AppRequests
import SlowBus.Host.Echo
import SlowBus.Host.ListSlaves
import SlowBus.Arbiter.EchoTrip
import SlowBus.Config.PowerSafe
import SlowBus.Config.Service
import SlowBus.Config.Staging
import SlowBus.Config.ReadOnly
import SlowBus.Config.Format
import SlowBus.Modes.Offline
import SlowBus.Modes.Switch
import SlowBus.Modes.Pulse
import SlowBus.Modes.Frame
import SlowBus.Modes.Counting
import SlowBus.Modes.Request
import SlowBus.Modes.BenchTables
import SlowBus.Modes.Isolation
import SlowBus.Modes.Tripped
import SlowBus.Modes.FreezeFrame
import SlowBus.Modes.Waveform
import SlowBus.Modes.Evaluators
import SlowBus.Dsl.Compile
import SlowBus.Dsl.Coverage
import SlowBus.Commission.Subtree
import SlowBus.Commission.Regen
import SlowBus.Commission.Bumps
import SlowBus.Commission.Slip
import SlowBus.Boot.Skip
import SlowBus.Boot.Bounds
import SlowBus.Boot.ForwardCompat
import SlowBus.Boot.Narrowing
import SlowBus.Hil.PwmTest
import SlowBus.Adc.Seqlock
import SlowBus.Commission.Record
import SlowBus.Commission.CfgImage
import SlowBus.Adc.Alignment
import SlowBus.Hil.ServoFrame
import SlowBus.Commission.Bumps
import SlowBus.Host.Bytes
import SlowBus.Dsl.Trip
import SlowBus.Engine.Outcomes
