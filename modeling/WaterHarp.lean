import WaterHarp.AudioThreshold
import WaterHarp.PictureAgreement
import WaterHarp.CameraCapture
import WaterHarp.CameraWindow
import WaterHarp.MelodyImage
import WaterHarp.DripCycle
import WaterHarp.MessageLoop
import WaterHarp.CaptureRecovery
import WaterHarp.MelodyRests
import WaterHarp.StreamVolume
import WaterHarp.ButtonMenu
import WaterHarp.VideoHistory
import WaterHarp.RunLength
import WaterHarp.DmxDump
import WaterHarp.PriorityTimers
import WaterHarp.RunningRange
import WaterHarp.SensorUpdate
import WaterHarp.SensorRange
import WaterHarp.SensorSchedule
import WaterHarp.NoteEdges
import WaterHarp.DepthPipeline
import WaterHarp.StreamRoundTrip
import WaterHarp.FrameRuns
