import Styrolite.ForStd.Prog
import Styrolite.ForStd.Process
import Styrolite.ForStd.Jobs
import Styrolite.ForStd.PathWalk
import Styrolite.ForStd.MountTable
import Styrolite.ForStd.MountSpace
import Styrolite.ForStd.Answers
import Styrolite.ForStd.LocalRules
import Styrolite.ForStd.Triples
import Styrolite.ForStd.ProgEq
import Styrolite.ForStd.Interfaces
import Styrolite.ForStd.Endings
import Styrolite.ForStd.Extended
import Styrolite.ForStd.BufWriter
import Styrolite.ForStd.CapSets
import Styrolite.ForStd.Settings
import Styrolite.ForStd.Switch
import Styrolite.ForStd.LexPath
import Styrolite.ForStd.Decimal
import Styrolite.ForStd.Fields
import Styrolite.ForStd.SortedMap
import Styrolite.ForStd.Folds
import Styrolite.ForStd.Script
import Styrolite.Native.Basic
import Styrolite.Native.Namespace
import Styrolite.Native.Config
import Styrolite.Native.Capability
import Styrolite.Native.Call
import Styrolite.Native.Mount
import Styrolite.Native.Caps
import Styrolite.Native.CGroup
import Styrolite.Native.Exec
import Styrolite.Native.Create
import Styrolite.Native.Attach
import Styrolite.Native.Builder
import Styrolite.Native.Runner
import Styrolite.Native.Launch
import Styrolite.Spec.Footprint
import Styrolite.Spec.Linux
import Styrolite.Spec.Pair
import Styrolite.Spec.Halves
import Styrolite.Spec.Schedule
import Styrolite.Spec.NamespaceCorrect
import Styrolite.Spec.HandshakeCorrect
import Styrolite.Spec.Deadlock
import Styrolite.Spec.IdMapCorrect
import Styrolite.Spec.RenderCorrect
import Styrolite.Spec.StyrojailCorrect
import Styrolite.Spec.GrammarCorrect
import Styrolite.Spec.ExecuteCorrect
import Styrolite.Spec.Unrefused
import Styrolite.Spec.MountNulCorrect
import Styrolite.Spec.FirstChildCorrect
import Styrolite.Spec.Attached
import Styrolite.Spec.OomScoreCorrect
import Styrolite.Spec.FrameCorrect
import Styrolite.Spec.CapabilityNames
import Styrolite.Spec.ConfinementCorrect
import Styrolite.Spec.Credentials
import Styrolite.Spec.CapMaskCorrect
import Styrolite.Spec.Request
import Styrolite.Spec.CapabilityCorrect
import Styrolite.Spec.ValidateCorrect
import Styrolite.Spec.IdentityCorrect
import Styrolite.Spec.SwitchCorrect
import Styrolite.Spec.DescriptorCorrect
import Styrolite.Spec.WorkloadIdCorrect
import Styrolite.Spec.Location
import Styrolite.Spec.CgroupWritesCorrect
import Styrolite.Spec.CgroupPlaceCorrect
import Styrolite.Spec.CgroupLimitsCorrect
import Styrolite.Spec.Signals
import Styrolite.Spec.MountFieldsCorrect
import Styrolite.Spec.SealCorrect
import Styrolite.Spec.SignalCorrect
import Styrolite.Spec.Vfs
import Styrolite.Spec.VfsSteps
import Styrolite.Spec.ApplyCaps
import Styrolite.Spec.ApplyCapsCorrect
import Styrolite.Spec.LimitsCorrect
import Styrolite.Spec.SeccompCorrect
import Styrolite.Spec.RerootCorrect
import Styrolite.Spec.JoinRootfsCorrect
import Styrolite.Spec.MountsCorrect
import Styrolite.Spec.MountpointCorrect
import Styrolite.Spec.PivotRun
import Styrolite.Spec.ReadOnlyCorrect
import Styrolite.Spec.TargetsCorrect
import Styrolite.Spec.ReadOnlyPathsCorrect
import Styrolite.Spec.MaskCorrect
import Styrolite.Spec.RunnerCorrect
import Styrolite.Spec.LaunchCorrect
import Styrolite.Spec.ExitCorrect
import Styrolite.Spec.BuilderCorrect
import Styrolite.Spec.JailCorrect
import Styrolite.Spec.EnclosedCorrect
import Styrolite.Spec.JoinedCorrect
import Styrolite.Spec.ScriptCorrect
import Styrolite.Spec.LastEventsCorrect
import Styrolite.Spec.OutcomeCorrect
import Styrolite.Spec.ToleranceCorrect
import Styrolite.Spec.ShownCorrect
